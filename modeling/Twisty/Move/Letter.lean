import Twisty.Face

/-! The letters that moves are written with: `U F R B L D` turn outer layers,
`u f r b l d` turn all layers but the far one, `x y z` turn the whole cube, and
`M E S` turn what lies between two opposite faces. -/

namespace Twisty

/-- An axis of the whole cube, named by the face its clockwise turn follows:
`x` follows R, `y` follows U and `z` follows F. -/
inductive Axis
  | x | y | z
deriving DecidableEq

/-- The middle layers between two faces: `m` turns along with L, `e` with D and
`s` with F. -/
inductive Slice
  | m | e | s
deriving DecidableEq

inductive Letter
  | outer (face : Face)
  | thick (face : Face)
  | rotation (axis : Axis)
  | slice (slice : Slice)
deriving DecidableEq

namespace Letter

/-- Only the six outer faces can be turned more than one layer deep. -/
def isOuter : Letter → Bool
  | outer _ => true
  | _ => false

def char : Letter → Char
  | outer face => face.letter
  | thick .u => 'u' | thick .f => 'f' | thick .r => 'r'
  | thick .b => 'b' | thick .l => 'l' | thick .d => 'd'
  | rotation .x => 'x' | rotation .y => 'y' | rotation .z => 'z'
  | slice .m => 'M' | slice .e => 'E' | slice .s => 'S'

def ofChar? : Char → Option Letter
  | 'U' => some (outer .u) | 'F' => some (outer .f) | 'R' => some (outer .r)
  | 'B' => some (outer .b) | 'L' => some (outer .l) | 'D' => some (outer .d)
  | 'u' => some (thick .u) | 'f' => some (thick .f) | 'r' => some (thick .r)
  | 'b' => some (thick .b) | 'l' => some (thick .l) | 'd' => some (thick .d)
  | 'x' => some (rotation .x) | 'y' => some (rotation .y) | 'z' => some (rotation .z)
  | 'M' => some (slice .m) | 'E' => some (slice .e) | 'S' => some (slice .s)
  | _ => none

theorem ofChar?_char (letter : Letter) : ofChar? letter.char = some letter := by
  cases letter with
  | outer face => cases face <;> rfl
  | thick face => cases face <;> rfl
  | rotation axis => cases axis <;> rfl
  | slice slice => cases slice <;> rfl

theorem ofChar?_eq_some_iff {c : Char} {letter : Letter} :
    ofChar? c = some letter ↔ letter.char = c := by
  constructor
  · intro h
    unfold ofChar? at h
    split at h <;> cases h <;> rfl
  · rintro rfl; exact ofChar?_char letter

/-- All eighteen letters. -/
def all : List Letter :=
  Face.all.map outer ++ Face.all.map thick ++
    [rotation .x, rotation .y, rotation .z, slice .m, slice .e, slice .s]

theorem mem_all (letter : Letter) : letter ∈ all := by
  cases letter with
  | outer face => cases face <;> decide
  | thick face => cases face <;> decide
  | rotation axis => cases axis <;> decide
  | slice slice => cases slice <;> decide

end Letter

end Twisty
