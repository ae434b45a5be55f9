import Twisty.Cube.Basic
import Twisty.Proofs.Parallel
import Twisty.Proofs.SixLayers

/-! Commutators of two outer layers that meet. What R and U do is seen on a cube of six
layers. Any other two layers that meet are R and U to someone who holds the cube another
way, and to turn the cube and then make a move is to make the move as it was seen before
and then turn the cube. -/

namespace Twisty

/-- Two clockwise turns, undone in the order in which they were made. -/
def Algorithm.commutator (face other : Face) : Algorithm :=
  [.single (.outer face) .clockwise, .single (.outer other) .clockwise,
    .single (.outer face) .counterclockwise, .single (.outer other) .counterclockwise]

theorem Algorithm.width_eq_one_of_mem {k : Nat} {face other : Face} {m : Move}
    (h : m ∈ copies k (commutator face other)) : m.width = 1 := by
  rw [copies_eq, List.mem_flatten] at h
  obtain ⟨a, ha, hm⟩ := h
  rw [List.eq_of_mem_replicate ha] at hm
  simp only [commutator, List.mem_cons, List.not_mem_nil, or_false] at hm
  rcases hm with rfl | rfl | rfl | rfl <;> rfl

/-! ## Moves as seen before the cube was turned -/

theorem Point.turned_turned_source (axis : Axis) (face : Face) (p : Point) :
    (p.turned (axis.source face)).turned axis.face = (p.turned axis.face).turned face := by
  refine ext_of ?_ ?_ ?_ <;> cases axis <;> cases face <;>
    simp [turned, add, scale, dot, cross, Face.normal, Axis.source, Axis.face]

namespace Place

theorem depth_turned_axis (n : Nat) (axis : Axis) (face : Face) (p : Place) :
    (p.turned axis.face).depth n face = p.depth n (axis.source face) := by
  simp only [depth, turned, ← axis.turned_source face, Point.dot_turned]

theorem carry_turned_axis (n width : Nat) (axis : Axis) (face : Face) (p : Place) :
    ((Letter.outer (axis.source face)).carry width n p).turned axis.face =
      (Letter.outer face).carry width n (p.turned axis.face) := by
  have takes : (Letter.outer face).Takes width n (p.turned axis.face) ↔
      (Letter.outer (axis.source face)).Takes width n p := by
    simp only [Letter.Takes, Letter.pivot, depth_turned_axis]
  by_cases h : (Letter.outer (axis.source face)).Takes width n p
  · rw [Letter.carry_of_takes h, Letter.carry_of_takes (takes.2 h)]
    simp only [turned, Letter.pivot, Point.turned_turned_source]
  · rw [Letter.carry_of_not_takes h, Letter.carry_of_not_takes (mt takes.1 h)]

end Place

namespace Facelets

open Algorithm

variable {n : Nat}

theorem rotate_turnFace (two_le : 2 ≤ n) (axis : Axis) (face : Face) :
    Function.Semiconj (rotate (n := n) axis) (turnFace (axis.source face) 1) (turnFace face 1) := by
  have turn := carries_turnFace (n := n) (Nat.le_refl 1) two_le
  have before := (turn (axis.source face)).comp (carries_rotate axis)
  have after := (carries_rotate axis).comp (turn face)
  have motions := fun p : Spot n => Place.carry_turned_axis n 1 axis face p.place
  intro s
  refine (before.congr motions).unique after ?_ s
  exact ((Letter.outer face).carry_injective 1 n).comp (Place.turned_injective axis.face)

theorem rotate_make (two_le : 2 ≤ n) (axis : Axis) (face : Face) (amount : Amount) :
    Function.Semiconj (rotate (n := n) axis) (make (.single (.outer (axis.source face)) amount))
      (make (.single (.outer face) amount)) := by
  show Function.Semiconj _ (amount.act _) (amount.act _)
  rw [Amount.act_eq_iterate, Amount.act_eq_iterate]
  exact (rotate_turnFace two_le axis face).iterate_right _

theorem rotate_commutator (two_le : 2 ≤ n) (axis : Axis) (face other : Face) :
    Function.Semiconj (rotate (n := n) axis)
      (makeAll (commutator (axis.source face) (axis.source other)))
      (makeAll (commutator face other)) := by
  have seen := rotate_make two_le axis
  exact ((seen other .counterclockwise).comp_right (seen face .counterclockwise)).comp_right
    ((seen other .clockwise).comp_right (seen face .clockwise))

theorem makeAll_copies (k : Nat) (a : List Move) (s : Facelets n) :
    makeAll (copies k a) s = (makeAll a)^[k] s := by
  induction k generalizing s with
  | zero =>
    rw [copies_zero]
    rfl
  | succ k ih => rw [copies_succ, makeAll_append, ih, Function.iterate_succ_apply]

/-! ## Six times -/

theorem makeAll_six_right_top (two_le : 2 ≤ n) (s : Facelets n) :
    makeAll (copies 6 (commutator .r .u)) s = s := by
  have same : ∀ p ∈ Spot.typical,
      carryAll (copies 6 (commutator .r .u)) 6 p.place = carryAll [] 6 p.place := by
    decide +kernel
  exact makeAll_eq_of_typical (fun m => width_eq_one_of_mem) (by simp) same two_le s

/-- Someone who holds the cube another way sees another commutator come round. -/
theorem iterate_commutator_of_turns (two_le : 2 ≤ n) (turns : List Axis) {face other : Face}
    (h : ∀ s : Facelets n, (makeAll (commutator ((Spin.ofTurns turns).source face)
      ((Spin.ofTurns turns).source other)))^[6] s = s) (s : Facelets n) :
    (makeAll (commutator face other))^[6] s = s := by
  induction turns generalizing s with
  | nil => exact h s
  | cons axis rest ih =>
    refine ih (fun s => ?_) s
    have seen := (rotate_commutator two_le axis ((Spin.ofTurns rest).source face)
      ((Spin.ofTurns rest).source other)).iterate_right 6
    -- Before the first turn the faces were called otherwise, and there the rounds close.
    rw [← rotate_rotateBack axis s, ← seen]
    exact congrArg (rotate axis) (h (rotateBack axis s))

/-- Faces that meet can be brought to R and U. -/
theorem exists_turns_of_meeting : ∀ face other : Face, face.axis ≠ other.axis →
    ∃ turns ∈ Spin.turnLists, (Spin.ofTurns turns).source face = .r ∧
      (Spin.ofTurns turns).source other = .u := by
  decide +kernel

theorem makeAll_six_commutators (two_le : 2 ≤ n) {face other : Face}
    (meeting : face.axis ≠ other.axis) (s : Facelets n) :
    makeAll (copies 6 (commutator face other)) s = s := by
  obtain ⟨turns, -, hface, hother⟩ := exists_turns_of_meeting face other meeting
  rw [makeAll_copies]
  refine iterate_commutator_of_turns two_le turns (fun t => ?_) s
  rw [hface, hother, ← makeAll_copies]
  exact makeAll_six_right_top two_le t

end Facelets

namespace Cube

open Algorithm

variable {n : Nat}

/-- The commutator of two outer layers that meet comes round after six times on every cube,
whatever it shows. Written for R and U it is read as what it is. -/
theorem apply_six_commutators (c : Cube n) :
    c.applyText "(R U R' U')6" = .ok c ∧
      ∀ {face other : Face}, face.axis ≠ other.axis →
        c.apply (copies 6 (commutator face other)) = .ok c := by
  have round : ∀ {face other : Face}, face.axis ≠ other.axis →
      c.apply (copies 6 (commutator face other)) = .ok c := by
    intro face other meeting
    have fits : ∀ m ∈ copies 6 (commutator face other), m.width < n := by
      intro m hm
      rw [width_eq_one_of_mem hm]
      exact c.two_le
    rw [apply_eq_of_fits fits, Facelets.makeAll_six_commutators c.two_le meeting]
  refine ⟨?_, round⟩
  have parsed : Algorithm.parse "(R U R' U')6" = .ok (copies 6 (commutator .r .u)) := by
    decide +kernel
  rw [applyText, parsed]
  exact round (by decide)

/-- A cube with as many colors as it has stickers, at the corner of F, L and U. -/
theorem apply_six_commutators_front : Face.f.axis ≠ Face.l.axis ∧
    let c : Cube 2 := ⟨⟨'w', 'g', 'r', 'b', 'o', 'y'⟩,
      ⟨.ofFn fun i j => Char.ofNat (65 + 2 * i + j), .ofFn fun i j => Char.ofNat (69 + 2 * i + j),
        .ofFn fun i j => Char.ofNat (73 + 2 * i + j), .ofFn fun i j => Char.ofNat (77 + 2 * i + j),
        .ofFn fun i j => Char.ofNat (81 + 2 * i + j), .ofFn fun i j => Char.ofNat (85 + 2 * i + j)⟩,
      .solved 2 ⟨'w', 'g', 'r', 'b', 'o', 'y'⟩, by decide, by decide⟩
    c.apply (copies 6 (commutator .f .l)) = .ok c := by
  have meeting : Face.f.axis ≠ Face.l.axis := by decide
  exact ⟨meeting, (apply_six_commutators _).2 meeting⟩

end Cube

end Twisty
