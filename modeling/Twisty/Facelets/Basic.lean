import Twisty.Grid
import Twisty.PerFace
import Twisty.Move.Letter

/-! The stickers of a whole cube, and the two motions that every move is made of:
turning the whole cube about an axis, and turning its top layers. -/

namespace Twisty

abbrev Facelets (n : Nat) := PerFace (Grid n)

namespace Facelets

variable {n : Nat}

/-- The sticker in a row and column of a face. -/
def sticker (s : Facelets n) (face : Face) (i j : Fin n) : Char := (s.get face).cell i j

theorem ext_sticker {s t : Facelets n}
    (same : ∀ face i j, s.sticker face i j = t.sticker face i j) : s = t :=
  PerFace.ext_get fun face => Grid.ext_cell fun i j => same face i j

/-- Every face filled with its own color. -/
def solved (n : Nat) (colors : PerFace Char) : Facelets n := colors.map (Grid.filled n)

@[simp] theorem sticker_solved (colors : PerFace Char) (face : Face) (i j : Fin n) :
    (solved n colors).sticker face i j = colors.get face := by
  simp [sticker, solved]

/-- Whether every face has one color. Which color that is does not matter, so a solved
cube stays solved when it is turned as a whole. -/
def isSolved (s : Facelets n) : Bool := s.toList.all Grid.isUniform

/-- All stickers, face by face. -/
def stickers (s : Facelets n) : List Char := s.toList.flatMap Grid.stickers

/-! ## The whole cube -/

/-- A quarter turn of the whole cube, clockwise about an axis. -/
def rotate : Axis → Facelets n → Facelets n
  | .x, s =>
    { u := s.f, f := s.d, r := s.r.clockwise
      b := s.u.upsideDown, l := s.l.counterclockwise, d := s.b.upsideDown }
  | .y, s =>
    { u := s.u.clockwise, f := s.r, r := s.b
      b := s.l, l := s.f, d := s.d.counterclockwise }
  | .z, s =>
    { u := s.l.clockwise, f := s.f.clockwise, r := s.u.clockwise
      b := s.b.counterclockwise, l := s.d.clockwise, d := s.r.clockwise }

/-- Four quarter turns come round. -/
theorem rotate_four (axis : Axis) (s : Facelets n) :
    ((s.rotate axis).rotate axis |>.rotate axis).rotate axis = s := by
  apply ext_sticker
  intro face i j
  cases axis <;> cases face <;> simp [rotate, sticker, PerFace.get]

/-! ## The top layers -/

/-- A clockwise quarter turn of the top layers: U turns, and the sides hand their top
rows on, F taking those of R. -/
def turnTop (layers : Nat) (s : Facelets n) : Facelets n :=
  { u := s.u.clockwise
    f := .withTop layers s.r s.f
    r := .withTop layers s.b s.r
    b := .withTop layers s.l s.b
    l := .withTop layers s.f s.l
    d := s.d }

theorem turnTop_four (layers : Nat) (s : Facelets n) :
    turnTop layers (turnTop layers (turnTop layers (turnTop layers s))) = s := by
  apply ext_sticker
  intro face i j
  by_cases h : i.val < layers <;>
    cases face <;> simp [turnTop, sticker, PerFace.get, h]

end Facelets

end Twisty
