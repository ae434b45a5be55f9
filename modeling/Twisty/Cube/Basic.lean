import Twisty.Cube.Fault
import Twisty.Facelets.Turn
import Twisty.Notation.Parser
import Twisty.Palette

/-! A cube of a given size: its six colors, all different, its stickers, and what these
were when it was made. Turning checks every width before anything moves, so a cube that
cannot make some move of an algorithm makes none of them. -/

namespace Twisty

structure Cube (n : Nat) where
  colors : PerFace Char
  state : Facelets n
  original : Facelets n
  two_le : 2 ≤ n
  distinct : colors.toList.Nodup
deriving DecidableEq

namespace Cube

variable {n : Nat}

/-- A solved cube with one color for each face in U F R B L D order. -/
def new (size : Nat) (colors : String) : Except CubeError (Cube size) :=
  if two_le : 2 ≤ size then
    match PerFace.ofList? colors.toList with
    | none => .error (.setup (.colorCount colors.toList.length))
    | some six =>
      match repeats : Palette.firstRepeat? six.toList with
      | some color => .error (.setup (.repeatedColor color))
      | none =>
        .ok ⟨six, .solved size six, .solved size six, two_le,
          (Palette.firstRepeat?_eq_none_iff _).1 repeats⟩
  else .error (.setup (.tooSmall size))

def defaultSize : Nat := 3

def defaultColors : String := "wgrboy"

/-- The cube that is meant when nothing else is said. -/
def standard : Cube defaultSize :=
  let six : PerFace Char := ⟨'w', 'g', 'r', 'b', 'o', 'y'⟩
  ⟨six, .solved defaultSize six, .solved defaultSize six, by decide, by decide⟩

def isSolved (c : Cube n) : Bool := c.state.isSolved

/-- The cube as it was made. -/
def reset (c : Cube n) : Cube n := { c with state := c.original }

/-- A clockwise quarter turn of the whole cube. -/
def rotate (axis : Axis) (c : Cube n) : Cube n := { c with state := c.state.rotate axis }

/-! ## Moves -/

def checkLayers (size layers : Nat) : Except CubeError Unit :=
  if 1 ≤ layers ∧ layers < size then .ok () else .error (.layers layers size)

theorem checkLayers_eq_ok_iff {size layers : Nat} :
    checkLayers size layers = .ok () ↔ 1 ≤ layers ∧ layers < size := by
  unfold checkLayers
  split <;> simp_all

/-- A clockwise quarter turn of the top layers. -/
def turnTop (layers : Nat) (c : Cube n) : Except CubeError (Cube n) :=
  (checkLayers n layers).map fun _ => { c with state := c.state.turnTop layers }

def turn (m : Move) (c : Cube n) : Except CubeError (Cube n) :=
  (checkLayers n m.width).map fun _ => { c with state := c.state.make m }

/-- All moves of an algorithm, or the fault of the first one that is too wide. -/
def apply (a : Algorithm) (c : Cube n) : Except CubeError (Cube n) :=
  match a.find? fun m => n ≤ m.width with
  | some m => .error (.layers m.width n)
  | none => .ok { c with state := c.state.makeAll a }

theorem apply_eq_of_fits {a : Algorithm} {c : Cube n} (h : ∀ m ∈ a, m.width < n) :
    c.apply a = .ok { c with state := c.state.makeAll a } := by
  have hn : a.find? (fun m => n ≤ m.width) = none := by
    rw [List.find?_eq_none]
    intro m hm
    simpa using h m hm
  simp only [apply, hn]

theorem fits_of_apply {a : Algorithm} {c d : Cube n} (h : c.apply a = .ok d) :
    ∀ m ∈ a, m.width < n := by
  unfold apply at h
  split at h
  · cases h
  · rename_i hn
    intro m hm
    simpa using List.find?_eq_none.1 hn m hm

def applyText (text : String) (c : Cube n) : Except CubeError (Cube n) :=
  match Algorithm.parse text with
  | .error error => .error (.parse error)
  | .ok a => c.apply a

end Cube

end Twisty
