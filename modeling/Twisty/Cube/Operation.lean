import Twisty.Generator
import Twisty.Scramble

/-! What can be done to a cube, one thing after another. An operation that fails leaves
the cube as it was. -/

namespace Twisty

/-- A scramble comes with what it draws from. -/
inductive Operation (G : Type := Generator)
  | turn (move : Move)
  | apply (a : Algorithm)
  | applyText (text : String)
  | turnTop (layers : Nat)
  | rotate (axis : Axis)
  | reset
  | scramble (generator : G) (length : Option Nat)
deriving DecidableEq

namespace Cube

variable {n : Nat} {G : Type} [Source G] [Hashable (Facelets n)]

/-- What an operation makes of a cube. A scramble that never ends makes nothing of it. -/
def attempt (c : Cube n) : Operation G → Except CubeError (Cube n)
  | .turn m => c.turn m
  | .apply a => c.apply a
  | .applyText text => c.applyText text
  | .turnTop layers => c.turnTop layers
  | .rotate axis => .ok (c.rotate axis)
  | .reset => .ok c.reset
  | .scramble g length => .ok (((c.scramble g length).map fun r => r.2.1).getD c)

/-- The cube after an operation, and what went wrong. -/
def perform (c : Cube n) (op : Operation G) : Cube n × Option CubeError :=
  match c.attempt op with
  | .ok done => (done, none)
  | .error error => (c, some error)

def performAll (c : Cube n) : List (Operation G) → Cube n
  | [] => c
  | op :: rest => (c.perform op).1.performAll rest

theorem perform_of_error {c : Cube n} {op : Operation G} {error : CubeError}
    (h : c.attempt op = .error error) : c.perform op = (c, some error) := by
  simp [perform, h]

end Cube

end Twisty
