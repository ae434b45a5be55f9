import Twisty.Proofs.Carrying
import Twisty.Proofs.Spin

/-! Six layers are enough. Moves of single layers, of all but one, of those between two
faces and of the whole cube ask of a sticker only below which faces it lies in the outermost
layer, and besides they exchange coordinates and turn their signs. So a place in a cube of
any size moves as one in a cube of six layers does, where a coordinate is outermost or has
one of two other magnitudes. What two algorithms of such moves do alike there they do alike
on every cube. -/

namespace Twisty

/-! ## Stretching a cube -/

/-- Every coordinate replaced by another. -/
def Point.stretched (φ : Int → Int) (p : Point) : Point := ⟨φ p.x, φ p.y, φ p.z⟩

def Place.stretched (φ : Int → Int) (p : Place) : Place := ⟨p.cubie.stretched φ, p.facing⟩

namespace Point

variable {φ : Int → Int}

theorem turned_stretched (odd : ∀ k, φ (-k) = -φ k) (face : Face) (p : Point) :
    (p.stretched φ).turned face = (p.turned face).stretched φ := by
  refine ext_of ?_ ?_ ?_ <;> cases face <;>
    simp [stretched, turned, add, scale, dot, cross, Face.normal, odd]

end Point

/-- Turning exchanges the faces below which a place is as deep as before. -/
theorem Place.exists_depth_turned (pivot face : Face) :
    ∃ other : Face, ∀ n p, (turned pivot p).depth n face = p.depth n other := by
  obtain ⟨other, h⟩ : ∃ other : Face, other.normal.turned pivot = face.normal := by
    revert pivot face
    decide
  refine ⟨other, fun n p => ?_⟩
  simp only [depth, turned, ← h, Point.dot_turned]

/-- A place of the cube of six layers and one of another cube that is reached by stretching
the first cube, with both in the outermost layers below the same faces. -/
structure Place.Resembles (φ : Int → Int) (n : Nat) (p q : Place) : Prop where
  stretched : q = p.stretched φ
  outermost : ∀ face, q.depth n face < 1 ↔ p.depth 6 face < 1
  notFar : ∀ face, q.depth n face ≤ n - 2 ↔ p.depth 6 face ≤ (6 : Nat) - 2

namespace Place.Resembles

variable {φ : Int → Int} {n : Nat} {p q : Place}

theorem turned (odd : ∀ k, φ (-k) = -φ k) (h : Resembles φ n p q) (pivot : Face) :
    Resembles φ n (p.turned pivot) (q.turned pivot) where
  stretched := by
    rw [h.stretched]
    exact congrArg (Place.mk · _) (Point.turned_stretched odd pivot p.cubie)
  outermost face := by
    obtain ⟨other, same⟩ := exists_depth_turned pivot face
    rw [same, same, h.outermost]
  notFar face := by
    obtain ⟨other, same⟩ := exists_depth_turned pivot face
    rw [same, same, h.notFar]

theorem takes_iff (h : Resembles φ n p q) (letter : Letter) :
    letter.Takes 1 n q ↔ letter.Takes 1 6 p := by
  cases letter with
  | outer face => exact h.outermost face
  | thick face => exact h.notFar face
  | rotation axis => exact Iff.rfl
  | slice between =>
    have near := h.outermost between.face
    have far := h.notFar between.face
    simp only [Letter.Takes, Letter.pivot]
    omega

theorem carry (odd : ∀ k, φ (-k) = -φ k) (h : Resembles φ n p q) (letter : Letter) :
    Resembles φ n (letter.carry 1 6 p) (letter.carry 1 n q) := by
  by_cases taken : letter.Takes 1 6 p
  · rw [Letter.carry_of_takes taken, Letter.carry_of_takes ((h.takes_iff letter).2 taken)]
    exact h.turned odd letter.pivot
  · rw [Letter.carry_of_not_takes taken,
      Letter.carry_of_not_takes (mt (h.takes_iff letter).1 taken)]
    exact h

theorem carryMove (odd : ∀ k, φ (-k) = -φ k) (h : Resembles φ n p q) {m : Move}
    (single : m.width = 1) : Resembles φ n (m.carry 6 p) (m.carry n q) := by
  rw [m.carry_eq_act, m.carry_eq_act, single]
  cases m.amount with
  | clockwise => exact h.carry odd m.letter
  | half => exact (h.carry odd m.letter).carry odd m.letter
  | counterclockwise =>
    exact ((h.carry odd m.letter).carry odd m.letter).carry odd m.letter

end Place.Resembles

/-! ## Runs of moves -/

/-- Where moves take a place, one after another. -/
def carryAll (moves : List Move) (n : Nat) (p : Place) : Place :=
  moves.foldl (fun q m => m.carry n q) p

theorem Place.Resembles.carryAll {φ : Int → Int} (odd : ∀ k, φ (-k) = -φ k) {n : Nat}
    {p q : Place} (h : Resembles φ n p q) {moves : List Move}
    (single : ∀ m ∈ moves, m.width = 1) :
    Resembles φ n (carryAll moves 6 p) (carryAll moves n q) := by
  induction moves generalizing p q with
  | nil => exact h
  | cons m rest ih =>
    obtain ⟨hm, hrest⟩ := List.forall_mem_cons.1 single
    exact ih (h.carryMove odd hm) hrest

theorem carryAll_injective (moves : List Move) (n : Nat) :
    Function.Injective (carryAll moves n) := by
  induction moves with
  | nil => exact Function.injective_id
  | cons m rest ih => exact ih.comp (m.carry_injective n)

theorem Facelets.carries_makeAll {n : Nat} {moves : List Move}
    (fits : ∀ m ∈ moves, m.width < n) :
    Carries (n := n) (carryAll moves n) (makeAll moves) := by
  induction moves with
  | nil => exact carries_still
  | cons m rest ih =>
    obtain ⟨hm, hrest⟩ := List.forall_mem_cons.1 fits
    exact (carries_make hm).comp (ih hrest)

/-! ## Nine spots of each face -/

namespace Spot

variable {n : Nat}

/-- One row and one column besides the outermost ones, at different magnitudes. -/
def typical : List (Spot 6) :=
  Face.all.flatMap fun face => [0, 1, 5].flatMap fun i => [0, 2, 5].map fun j => ⟨face, i, j⟩

/-- A line of `n` by the line of six that stands for it: the first, the last or another. -/
def sixth (inner : Fin 6) (i : Fin n) : Fin 6 :=
  if i.val = 0 then 0 else if i.val = n - 1 then 5 else inner

/-- The spot of six layers that stands for one of `n`. -/
def standIn (q : Spot n) : Spot 6 := ⟨q.face, sixth 1 q.row, sixth 2 q.col⟩

/-- The coordinates of a cube of six layers, drawn out so that its spots come to lie where
those are that they stand for. -/
def stretch (q : Spot n) (k : Int) : Int :=
  -- Rows of stand-ins lie at 3 and their columns at 1, so that each is drawn out by itself.
  if k = 5 then n - 1 else if k = -5 then -(n - 1)
  else if k = 3 then n - 1 - 2 * q.row else if k = -3 then -(n - 1 - 2 * q.row)
  else if k = -1 then 2 * q.col - (n - 1) else if k = 1 then -(2 * q.col - (n - 1))
  else 0

theorem stretch_neg (q : Spot n) (k : Int) : q.stretch (-k) = -q.stretch k := by
  unfold stretch
  split_ifs <;> omega

theorem stretch_row (q : Spot n) :
    q.stretch (5 - 2 * (sixth 1 q.row).val) = n - 1 - 2 * q.row := by
  have lt := q.row.isLt
  unfold sixth
  split_ifs with first last
  · simp [stretch, first]
  · simp [stretch, last]
    omega
  · simp [stretch]

theorem stretch_col (q : Spot n) :
    q.stretch (2 * (sixth 2 q.col).val - 5) = 2 * q.col - (n - 1) := by
  have lt := q.col.isLt
  unfold sixth
  split_ifs with first last
  · simp [stretch, first]
  · simp [stretch, last]
    omega
  · simp [stretch]

/-- In each direction a place has one of three coordinates, which are drawn out alone. -/
theorem place_eq_stretched (q : Spot n) : q.place = q.standIn.place.stretched q.stretch := by
  have near : q.stretch 5 = n - 1 := by simp [stretch]
  have far : q.stretch (-5) = 1 - n := by simp [stretch_neg, near]
  have row := q.stretch_row
  have col := q.stretch_col
  have row' : q.stretch (2 * (sixth 1 q.row).val - 5) = 2 * q.row - (n - 1) := by
    rw [← Int.neg_sub, stretch_neg, row, Int.neg_sub]
  have col' : q.stretch (5 - 2 * (sixth 2 q.col).val) = n - 1 - 2 * q.col := by
    rw [← Int.neg_sub, stretch_neg, col, Int.neg_sub]
  obtain ⟨face, i, j⟩ := q
  refine congrArg₂ Place.mk (Point.ext_of ?_ ?_ ?_) rfl <;> cases face <;>
    simp [place, standIn, rightward, Point.add, Point.scale, Point.cross, Face.normal,
      Face.above, Point.stretched, near, far, row, row', col, col']

theorem sixth_outermost (two_le : 2 ≤ n) (i : Fin n) (inner : Fin 6) (first : inner.val ≠ 0)
    (last : inner.val ≠ 5) :
    ((i.val : Int) < 1 ↔ ((sixth inner i).val : Int) < 1) ∧
      ((n : Int) - 1 - i.val < 1 ↔ (6 : Nat) - 1 - ((sixth inner i).val : Int) < 1) := by
  have lt := i.isLt
  unfold sixth
  split_ifs <;> simp <;> omega

theorem outermost_standIn (two_le : 2 ≤ n) (q : Spot n) (face : Face) :
    q.place.depth n face < 1 ↔ q.standIn.place.depth 6 face < 1 := by
  have row := sixth_outermost two_le q.row 1 (by decide) (by decide)
  have col := sixth_outermost two_le q.col 2 (by decide) (by decide)
  have own : q.standIn.place.depth 6 q.face = 0 := q.standIn.depth_place_face
  have above : q.standIn.place.depth 6 q.face.above = (sixth 1 q.row).val :=
    q.standIn.depth_place_above
  have leftward : q.standIn.place.depth 6 q.face.leftward = (sixth 2 q.col).val :=
    q.standIn.depth_place_leftward
  by_cases aside : q.face.axis = face.axis
  · obtain rfl | rfl := Face.axis_eq_iff.1 aside
    · rw [depth_place_face, own]
    · rw [depth_place_opposite, depth_place_opposite, depth_place_face, own]
      omega
  · obtain rfl | rfl | rfl | rfl := eq_of_beside aside
    · rw [depth_place_above, above]
      exact row.1
    · rw [depth_place_leftward, leftward]
      exact col.1
    · rw [depth_place_opposite, depth_place_opposite, depth_place_above, above]
      exact row.2
    · rw [depth_place_opposite, depth_place_opposite, depth_place_leftward, leftward]
      exact col.2

theorem resembles_standIn (two_le : 2 ≤ n) (q : Spot n) :
    Place.Resembles q.stretch n q.standIn.place q.place where
  stretched := q.place_eq_stretched
  outermost := q.outermost_standIn two_le
  notFar face := by
    have beyond := q.outermost_standIn two_le face.opposite
    rw [depth_place_opposite, depth_place_opposite] at beyond
    omega

theorem standIn_mem_typical (q : Spot n) : q.standIn ∈ typical := by
  have lines : ∀ inner : Fin 6, sixth inner q.row ∈ [0, inner, 5] ∧
      sixth inner q.col ∈ [0, inner, 5] := by
    intro inner
    unfold sixth
    constructor <;> split_ifs <;> simp
  simp only [typical, List.mem_flatMap, List.mem_map]
  exact ⟨q.face, Face.mem_all _, _, (lines 1).1, _, (lines 2).2, rfl⟩

end Spot

/-- What two algorithms of moves one layer wide do alike on a cube of six layers, they do
alike on cubes of any size. -/
theorem Facelets.makeAll_eq_of_typical {a b : List Move} (ha : ∀ m ∈ a, m.width = 1)
    (hb : ∀ m ∈ b, m.width = 1)
    (same : ∀ p ∈ Spot.typical, carryAll a 6 p.place = carryAll b 6 p.place) {n : Nat}
    (two_le : 2 ≤ n) (s : Facelets n) : makeAll a s = makeAll b s := by
  have fits : ∀ {c : List Move}, (∀ m ∈ c, m.width = 1) → ∀ m ∈ c, m.width < n := by
    intro c single m hm
    rw [single m hm]
    exact two_le
  refine ((carries_makeAll (fits ha)).congr fun q => ?_).unique (carries_makeAll (fits hb))
    (carryAll_injective b n) s
  -- All moves are one layer wide, so on either cube the spot goes where its stand-in does.
  have alike := q.resembles_standIn two_le
  calc carryAll a n q.place
      = (carryAll a 6 q.standIn.place).stretched q.stretch :=
        (alike.carryAll q.stretch_neg ha).stretched
    _ = (carryAll b 6 q.standIn.place).stretched q.stretch := by
        rw [same _ q.standIn_mem_typical]
    _ = carryAll b n q.place := (alike.carryAll q.stretch_neg hb).stretched.symm

end Twisty
