import Twisty.Layout.Fault
import Twisty.Palette

/-! Layouts: rows of stickers for some or all faces, of any lengths. A layout has the
shape of a cube if every face is there as a square of the right size, if no two
centers of an odd cube agree, and if there are six colors that each cover one face's
worth of stickers. -/

namespace Twisty

abbrev Layout := PerFace (Option (List (List Char)))

/-- The layout of a cube. -/
def Facelets.toLayout {n : Nat} (s : Facelets n) : Layout := s.map fun g => some g.toRows

namespace Facelets

variable {n : Nat}

/-- A color at the center of two faces. Only odd cubes have centers. -/
def repeatedCenter? (s : Facelets n) (pos : 0 < n) : Option Char :=
  if n % 2 = 1 then Palette.firstRepeat? (Face.all.map (s.center pos)) else none

/-- Checks that there are six colors with one face's worth of stickers each. Of the
colors that have not, the one with the smallest code point is reported. -/
def checkColors (s : Facelets n) : Except LayoutFault Unit :=
  let stickers := s.stickers
  let colors := Palette.ofStickers stickers
  if colors.length = 6 then
    match colors.find? fun c => stickers.count c ≠ n * n with
    | some c => .error (.unbalanced c (stickers.count c) (n * n))
    | none => .ok ()
  else .error (.colorCount colors.length)

end Facelets

/-- A cube found in a layout. -/
structure Shaped (n : Nat) where
  state : Facelets n
  two_le : 2 ≤ n

namespace Shaped

theorem pos {n : Nat} (c : Shaped n) : 0 < n := Nat.lt_of_lt_of_le (by decide) c.two_le

end Shaped

namespace Layout

/-- One face as a square grid. -/
def grid (layout : Layout) (size : Nat) (face : Face) : Except LayoutFault (Grid size) :=
  match layout.get face with
  | none => .error (.missingFace face)
  | some rows =>
    match Grid.ofRows? size rows with
    | none => .error (.misshapen face size)
    | some g => .ok g

/-- All faces as square grids, or the fault of the first that is none. -/
def assemble (layout : Layout) (size : Nat) : Except LayoutFault (Facelets size) := do
  let u ← layout.grid size .u
  let f ← layout.grid size .f
  let r ← layout.grid size .r
  let b ← layout.grid size .b
  let l ← layout.grid size .l
  let d ← layout.grid size .d
  return ⟨u, f, r, b, l, d⟩

def shape (layout : Layout) (size : Nat) : Except LayoutFault (Shaped size) :=
  if two_le : 2 ≤ size then
    match layout.assemble size with
    | .error fault => .error fault
    | .ok state =>
      match state.repeatedCenter? (Nat.lt_of_lt_of_le (by decide) two_le) with
      | some color => .error (.repeatedCenter color)
      | none => state.checkColors.map fun _ => ⟨state, two_le⟩
  else .error (.tooSmall size)

/-- Puts one color in place of another sticker's. A place that is not there is left
alone. -/
def paint (layout : Layout) (face : Face) (row col : Nat) (color : Char) : Layout :=
  .ofFn fun other =>
    let rows := layout.get other
    if other = face then rows.map fun rows => rows.modify row fun cells => cells.set col color
    else rows

end Layout

end Twisty
