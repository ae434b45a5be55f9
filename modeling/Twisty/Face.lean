import Twisty.Notation.Fault

/-! The six faces of a cube, in the order U F R B L D that every listing of faces
follows, and how they lie beside each other. Each face is laid out as a grid seen
from outside the cube: U with B along its top edge, D with F along its top edge,
the four sides with U along theirs. -/

namespace Twisty

inductive Face
  | u | f | r | b | l | d
deriving DecidableEq

namespace Face

def all : List Face := [u, f, r, b, l, d]

theorem mem_all (face : Face) : face ∈ all := by cases face <;> decide

def letter : Face → Char
  | u => 'U' | f => 'F' | r => 'R' | b => 'B' | l => 'L' | d => 'D'

def ofLetter? : Char → Option Face
  | 'U' => some u | 'F' => some f | 'R' => some r
  | 'B' => some b | 'L' => some l | 'D' => some d
  | _ => none

theorem ofLetter?_letter (face : Face) : ofLetter? face.letter = some face := by
  cases face <;> rfl

theorem ofLetter?_eq_some_iff {c : Char} {face : Face} :
    ofLetter? c = some face ↔ face.letter = c := by
  constructor
  · intro h
    unfold ofLetter? at h
    split at h <;> cases h <;> rfl
  · rintro rfl; exact ofLetter?_letter face

/-- A face named by its letter alone. -/
def parse (text : String) : Except ParseError Face :=
  match text.toList with
  | [c] =>
    match ofLetter? c with
    | some face => .ok face
    | none => .error (.move text)
  | _ => .error (.move text)

/-- The place of a face in the order U F R B L D. -/
def index : Face → Nat
  | u => 0 | f => 1 | r => 2 | b => 3 | l => 4 | d => 5

theorem all_getElem?_index (face : Face) : all[face.index]? = some face := by
  cases face <;> rfl

def opposite : Face → Face
  | u => d | d => u | f => b | b => f | r => l | l => r

@[simp] theorem opposite_opposite (face : Face) : face.opposite.opposite = face := by
  cases face <;> rfl

theorem opposite_ne (face : Face) : face.opposite ≠ face := by cases face <;> decide

/-- The face along the top edge of a face's grid. -/
def above : Face → Face
  | u => b | d => f | _ => u

/-- The face along the left edge of a face's grid. -/
def leftward : Face → Face
  | u => l | d => l | f => l | r => f | b => r | l => b

end Face

end Twisty
