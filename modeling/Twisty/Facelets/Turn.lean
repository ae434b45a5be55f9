import Twisty.Facelets.Basic
import Twisty.Move.Basic

/-! Making moves. An outer face is brought to the top, turned there and taken back.
A thick turn is a turn of the whole cube with the far layer turned after it, and a
slice is two far layers turned against each other before the whole cube follows.
Widths are not checked here: a move fits if it is narrower than the cube. -/

namespace Twisty.Facelets

variable {n : Nat}

/-- A counterclockwise quarter turn of the whole cube. -/
def rotateBack (axis : Axis) (s : Facelets n) : Facelets n :=
  Amount.counterclockwise.act (rotate axis) s

theorem rotateBack_rotate (axis : Axis) (s : Facelets n) :
    rotateBack axis (rotate axis s) = s := rotate_four axis s

theorem rotate_rotateBack (axis : Axis) (s : Facelets n) :
    rotate axis (rotateBack axis s) = s := rotate_four axis s

/-- Turns the whole cube so that a face comes to the top. -/
def toTop : Face → Facelets n → Facelets n
  | .u, s => s
  | .d, s => rotate .x (rotate .x s)
  | .l, s => rotate .z s
  | .r, s => rotateBack .z s
  | .f, s => rotate .x s
  | .b, s => rotateBack .x s

/-- Takes the face at the top back to where it came from. -/
def fromTop : Face → Facelets n → Facelets n
  | .u, s => s
  | .d, s => rotate .x (rotate .x s)
  | .l, s => rotateBack .z s
  | .r, s => rotate .z s
  | .f, s => rotateBack .x s
  | .b, s => rotate .x s

theorem fromTop_toTop (face : Face) (s : Facelets n) : fromTop face (toTop face s) = s := by
  cases face with
  | u => rfl
  | d => exact rotate_four .x s
  | l => exact rotateBack_rotate .z s
  | r => exact rotate_rotateBack .z s
  | f => exact rotateBack_rotate .x s
  | b => exact rotate_rotateBack .x s

theorem toTop_fromTop (face : Face) (s : Facelets n) : toTop face (fromTop face s) = s := by
  cases face with
  | u => rfl
  | d => exact rotate_four .x s
  | l => exact rotate_rotateBack .z s
  | r => exact rotateBack_rotate .z s
  | f => exact rotate_rotateBack .x s
  | b => exact rotateBack_rotate .x s

/-- A clockwise quarter turn of the layers at a face. -/
def turnFace (face : Face) (layers : Nat) (s : Facelets n) : Facelets n :=
  fromTop face (turnTop layers (toTop face s))

theorem turnFace_four (face : Face) (layers : Nat) (s : Facelets n) :
    turnFace face layers (turnFace face layers
      (turnFace face layers (turnFace face layers s))) = s := by
  simp only [turnFace, toTop_fromTop, turnTop_four, fromTop_toTop]

/-- A counterclockwise quarter turn of the outer layer at a face. -/
def turnFaceBack (face : Face) (s : Facelets n) : Facelets n :=
  Amount.counterclockwise.act (turnFace face 1) s

/-- A quarter turn of all layers but the one opposite a face. -/
def turnThick : Face → Facelets n → Facelets n
  | .u, s => turnFace .d 1 (rotate .y s)
  | .d, s => turnFace .u 1 (rotateBack .y s)
  | .l, s => turnFace .r 1 (rotateBack .x s)
  | .r, s => turnFace .l 1 (rotate .x s)
  | .f, s => turnFace .b 1 (rotate .z s)
  | .b, s => turnFace .f 1 (rotateBack .z s)

/-- A quarter turn of all layers between two faces. -/
def turnSlice : Slice → Facelets n → Facelets n
  | .m, s => rotateBack .x (turnFace .r 1 (turnFaceBack .l s))
  | .e, s => rotateBack .y (turnFaceBack .d (turnFace .u 1 s))
  | .s, s => rotate .z (turnFace .b 1 (turnFaceBack .f s))

def quarterTurn (letter : Letter) (width : Nat) (s : Facelets n) : Facelets n :=
  match letter with
  | .outer face => turnFace face width s
  | .thick face => turnThick face s
  | .rotation axis => rotate axis s
  | .slice slice => turnSlice slice s

/-- Makes a move that is known to fit. -/
def make (m : Move) (s : Facelets n) : Facelets n :=
  m.amount.act (quarterTurn m.letter m.width) s

/-- Makes moves one after another. -/
def makeAll (moves : List Move) (s : Facelets n) : Facelets n :=
  moves.foldl (fun t m => make m t) s

@[simp] theorem makeAll_nil (s : Facelets n) : makeAll [] s = s := rfl

@[simp] theorem makeAll_cons (m : Move) (moves : List Move) (s : Facelets n) :
    makeAll (m :: moves) s = makeAll moves (make m s) := rfl

theorem makeAll_append (a b : List Move) (s : Facelets n) :
    makeAll (a ++ b) s = makeAll b (makeAll a s) := by
  simp [makeAll]

end Twisty.Facelets
