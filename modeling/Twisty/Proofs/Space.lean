import Twisty.Move.Basic
import Mathlib.Tactic.Ring

/-! The cube in space. Points have whole coordinates, `x` toward R, `y` toward U and `z`
toward F, and neighbouring cubies are two apart, so that the center of a cube of any
size is the origin. A sticker's place is the cubie that carries it and the way it
faces. Moves turn places about the axis of a face. -/

namespace Twisty

structure Point where
  x : Int
  y : Int
  z : Int
deriving DecidableEq

namespace Point

def add (p q : Point) : Point := ⟨p.x + q.x, p.y + q.y, p.z + q.z⟩

def scale (k : Int) (p : Point) : Point := ⟨k * p.x, k * p.y, k * p.z⟩

def dot (p q : Point) : Int := p.x * q.x + p.y * q.y + p.z * q.z

def cross (p q : Point) : Point :=
  ⟨p.y * q.z - p.z * q.y, p.z * q.x - p.x * q.z, p.x * q.y - p.y * q.x⟩

theorem ext_of {p q : Point} (hx : p.x = q.x) (hy : p.y = q.y) (hz : p.z = q.z) : p = q := by
  cases p; cases q
  cases hx; cases hy; cases hz
  rfl

end Point

/-- The direction in which a face looks. -/
def Face.normal : Face → Point
  | .u => ⟨0, 1, 0⟩ | .d => ⟨0, -1, 0⟩ | .r => ⟨1, 0, 0⟩
  | .l => ⟨-1, 0, 0⟩ | .f => ⟨0, 0, 1⟩ | .b => ⟨0, 0, -1⟩

namespace Point

/-- A quarter turn about the axis through a face, clockwise as seen from that face. -/
def turned (face : Face) (p : Point) : Point :=
  (face.normal.scale (face.normal.dot p)).add (p.cross face.normal)

theorem turned_four (face : Face) (p : Point) :
    turned face (turned face (turned face (turned face p))) = p := by
  refine ext_of ?_ ?_ ?_ <;> cases face <;>
    simp [turned, add, scale, dot, cross, Face.normal]

/-- Three quarter turns are one as seen from the opposite face. -/
theorem turned_three (face : Face) (p : Point) :
    turned face (turned face (turned face p)) = turned face.opposite p := by
  refine ext_of ?_ ?_ ?_ <;> cases face <;>
    simp [turned, add, scale, dot, cross, Face.normal, Face.opposite]

/-- Turning keeps lengths and angles. -/
theorem dot_turned (face : Face) (p q : Point) :
    (turned face p).dot (turned face q) = p.dot q := by
  cases face <;> simp [turned, add, scale, dot, cross, Face.normal] <;> ring

theorem turned_normal (face : Face) : turned face face.normal = face.normal := by
  cases face <;> rfl

theorem dot_opposite (face : Face) (p : Point) :
    face.opposite.normal.dot p = -face.normal.dot p := by
  cases face <;> simp [dot, Face.normal, Face.opposite]

end Point

/-- Where a sticker is: the middle of its cubie, and the direction it faces. -/
structure Place where
  cubie : Point
  facing : Point
deriving DecidableEq

namespace Place

def turned (face : Face) (p : Place) : Place := ⟨p.cubie.turned face, p.facing.turned face⟩

theorem turned_four (face : Face) (p : Place) :
    turned face (turned face (turned face (turned face p))) = p := by
  simp only [turned, Point.turned_four]

theorem turned_three (face : Face) (p : Place) :
    turned face (turned face (turned face p)) = turned face.opposite p := by
  simp only [turned, Point.turned_three]

theorem turned_turned_opposite (face : Face) (p : Place) :
    turned face (turned face.opposite p) = p := by
  rw [← turned_three, turned_four]

theorem turned_opposite_turned (face : Face) (p : Place) :
    turned face.opposite (turned face p) = p := by
  rw [← turned_three, turned_four]

theorem turned_injective (face : Face) : Function.Injective (turned face) := by
  intro p q h
  rw [← turned_four face p, h, turned_four face q]

/-- How many layers of an `n`-layer cube lie between a cubie and a face. -/
def depth (n : Nat) (face : Face) (p : Place) : Int := (n - 1 - face.normal.dot p.cubie) / 2

theorem depth_turned (n : Nat) (face : Face) (p : Place) :
    (p.turned face).depth n face = p.depth n face := by
  have h := Point.dot_turned face face.normal p.cubie
  rw [Point.turned_normal] at h
  simp only [depth, turned, h]

theorem depth_turned_opposite (n : Nat) (face : Face) (p : Place) :
    (p.turned face.opposite).depth n face = p.depth n face := by
  simp only [← turned_three, depth_turned]

/-- Turns a layer that is outermost at one face about the axis of another. -/
def layerTurned (n : Nat) (face axis : Face) (p : Place) : Place :=
  if p.depth n face < 1 then p.turned axis else p

theorem layerTurned_of_lt {n : Nat} {face axis : Face} {p : Place} (h : p.depth n face < 1) :
    layerTurned n face axis p = p.turned axis :=
  if_pos h

theorem layerTurned_of_not_lt {n : Nat} {face axis : Face} {p : Place}
    (h : ¬ p.depth n face < 1) : layerTurned n face axis p = p :=
  if_neg h

/-- Turns the whole cube so that a face comes to the top. -/
def toTop : Face → Place → Place
  | .u, p => p
  | .d, p => turned .r (turned .r p)
  | .l, p => turned .f p
  | .r, p => turned .b p
  | .f, p => turned .r p
  | .b, p => turned .l p

/-- Takes the face at the top back to where it came from. -/
def fromTop : Face → Place → Place
  | .u, p => p
  | .d, p => turned .r (turned .r p)
  | .l, p => turned .b p
  | .r, p => turned .f p
  | .f, p => turned .l p
  | .b, p => turned .r p

theorem depth_toTop (n : Nat) (face : Face) (p : Place) :
    (toTop face p).depth n .u = p.depth n face := by
  cases face <;>
    simp [depth, toTop, turned, Point.turned, Point.add, Point.scale, Point.cross,
      Point.dot, Face.normal]

theorem fromTop_toTop (face : Face) (p : Place) : fromTop face (toTop face p) = p := by
  cases face with
  | u => rfl
  | d => exact turned_four .r p
  | l => exact turned_opposite_turned .f p
  | r => exact turned_turned_opposite .f p
  | f => exact turned_opposite_turned .r p
  | b => exact turned_turned_opposite .r p

theorem fromTop_turned_toTop (face : Face) (p : Place) :
    fromTop face (turned .u (toTop face p)) = turned face p := by
  cases face <;>
    simp [fromTop, toTop, turned, Point.turned, Point.add, Point.scale, Point.cross,
      Point.dot, Face.normal]

end Place

/-! ## What a move should do -/

def Axis.face : Axis → Face
  | x => .r | y => .u | z => .f

def Slice.face : Slice → Face
  | m => .l | e => .d | s => .f

/-- The axis that goes through the middle of a face. -/
def Face.axis : Face → Axis
  | r | l => .x
  | u | d => .y
  | f | b => .z

theorem Face.axis_eq_iff {face other : Face} :
    face.axis = other.axis ↔ other = face ∨ other = face.opposite := by
  cases face <;> cases other <;> decide

namespace Letter

/-- The face from which a clockwise move is seen to turn clockwise. -/
def pivot : Letter → Face
  | outer face => face
  | thick face => face
  | rotation axis => axis.face
  | slice between => between.face

/-- Whether a move takes a sticker along, judged by how deep below the pivot it lies. -/
def Takes (letter : Letter) (width n : Nat) (p : Place) : Prop :=
  match letter with
  | outer _ => p.depth n letter.pivot < width
  | thick _ => p.depth n letter.pivot ≤ n - 2
  | rotation _ => True
  | slice _ => 1 ≤ p.depth n letter.pivot ∧ p.depth n letter.pivot ≤ n - 2

instance (letter : Letter) (width n : Nat) (p : Place) :
    Decidable (letter.Takes width n p) :=
  match letter with
  | outer _ => inferInstanceAs (Decidable (_ < _))
  | thick _ => inferInstanceAs (Decidable (_ ≤ _))
  | rotation _ => inferInstanceAs (Decidable True)
  | slice _ => inferInstanceAs (Decidable (_ ∧ _))

/-- Where a clockwise move takes a place. -/
def carry (letter : Letter) (width n : Nat) (p : Place) : Place :=
  if letter.Takes width n p then p.turned letter.pivot else p

theorem carry_of_takes {letter : Letter} {width n : Nat} {p : Place}
    (h : letter.Takes width n p) : letter.carry width n p = p.turned letter.pivot :=
  if_pos h

theorem carry_of_not_takes {letter : Letter} {width n : Nat} {p : Place}
    (h : ¬ letter.Takes width n p) : letter.carry width n p = p :=
  if_neg h

theorem takes_turned {letter : Letter} {width n : Nat} {p : Place} :
    letter.Takes width n (p.turned letter.pivot) ↔ letter.Takes width n p := by
  cases letter <;> simp only [Takes, Place.depth_turned]

end Letter

/-- Where a move takes a place: around the pivot as many quarter turns as its amount has,
unless the place lies in no layer of the move. -/
def Move.carry (m : Move) (n : Nat) (p : Place) : Place :=
  if m.letter.Takes m.width n p then
    Nat.repeat (Place.turned m.letter.pivot) m.amount.quarterTurns p
  else p

theorem Move.carry_of_takes {m : Move} {n : Nat} {p : Place} (h : m.letter.Takes m.width n p) :
    m.carry n p = Nat.repeat (Place.turned m.letter.pivot) m.amount.quarterTurns p :=
  if_pos h

theorem Move.carry_of_not_takes {m : Move} {n : Nat} {p : Place}
    (h : ¬ m.letter.Takes m.width n p) : m.carry n p = p :=
  if_neg h

namespace Letter

theorem act_carry (letter : Letter) (width n : Nat) (amount : Amount) (p : Place) :
    amount.act (letter.carry width n) p =
      if letter.Takes width n p then
        Nat.repeat (Place.turned letter.pivot) amount.quarterTurns p
      else p := by
  by_cases h : letter.Takes width n p
  · cases amount <;>
      simp [Amount.act, Amount.quarterTurns, Nat.repeat, carry, h, takes_turned]
  · cases amount <;> simp [Amount.act, carry, h]

theorem carry_four (letter : Letter) (width n : Nat) (p : Place) :
    letter.carry width n (letter.carry width n
      (letter.carry width n (letter.carry width n p))) = p := by
  by_cases h : letter.Takes width n p
  · simp [carry, h, takes_turned, Place.turned_four]
  · simp [carry, h]

theorem carry_injective (letter : Letter) (width n : Nat) :
    Function.Injective (letter.carry width n) := by
  intro p q h
  rw [← letter.carry_four width n p, h, letter.carry_four width n q]

end Letter

/-- A turn at any face is one at the top with the cube held another way. -/
theorem Place.fromTop_carry_toTop (layers n : Nat) (face : Face) (p : Place) :
    fromTop face ((Letter.outer .u).carry layers n (toTop face p)) =
      (Letter.outer face).carry layers n p := by
  have top : (Letter.outer .u).Takes layers n (toTop face p) ↔
      (Letter.outer face).Takes layers n p := by
    simp only [Letter.Takes, Letter.pivot, depth_toTop]
  by_cases h : (Letter.outer face).Takes layers n p
  · rw [Letter.carry_of_takes (top.2 h), Letter.carry_of_takes h]
    exact fromTop_turned_toTop face p
  · rw [Letter.carry_of_not_takes (mt top.1 h), Letter.carry_of_not_takes h]
    exact fromTop_toTop face p

theorem Amount.act_injective {α : Type} {f : α → α} (inj : Function.Injective f)
    (amount : Amount) : Function.Injective (amount.act f) := by
  cases amount with
  | clockwise => exact inj
  | half => exact inj.comp inj
  | counterclockwise => exact (inj.comp inj).comp inj

/-- Where a move takes a place, quarter turn by quarter turn. -/
theorem Move.carry_eq_act (m : Move) (n : Nat) :
    m.carry n = m.amount.act (m.letter.carry m.width n) :=
  funext fun p => (m.letter.act_carry m.width n m.amount p).symm

/-- No move brings two places together. -/
theorem Move.carry_injective (m : Move) (n : Nat) : Function.Injective (m.carry n) := by
  rw [m.carry_eq_act]
  exact Amount.act_injective (m.letter.carry_injective m.width n) m.amount

end Twisty
