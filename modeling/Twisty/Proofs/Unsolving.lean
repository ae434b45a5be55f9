import Twisty.Proofs.Atomicity
import Twisty.Proofs.Reachable

/-! Moves on a solved cube. A move that takes some layers along and leaves others puts a
sticker from another side beside one that stays, on each side of its pivot. What remains
are turns of the whole cube, which keep every face uniform, and the slices of the smallest
cube, between whose outer layers nothing lies. -/

namespace Twisty

/-! ## Layers that go and layers that stay -/

/-- A quarter turn or two bring a side of the pivot to another side. -/
theorem Face.ne_of_normal_eq_repeat {pivot other : Face} {amount : Amount}
    (h : other.normal = Nat.repeat (Point.turned pivot) amount.quarterTurns pivot.above.normal) :
    other ≠ pivot.above ∧ other.axis ≠ pivot.axis := by
  revert h
  cases pivot <;> cases other <;> cases amount <;> decide

theorem Place.facing_repeat_turned (face : Face) (k : Nat) (p : Place) :
    (Nat.repeat (turned face) k p).facing = Nat.repeat (Point.turned face) k p.facing := by
  induction k with
  | zero => rfl
  | succ k ih =>
    show (Nat.repeat (turned face) k p).facing.turned face = _
    rw [ih]
    rfl

/-- Whether a move takes along all places at one depth and none at another. -/
def Letter.Divides (letter : Letter) (width n : Nat) : Prop :=
  (∃ d < n, ∀ p : Place, p.depth n letter.pivot = (d : Nat) → letter.Takes width n p) ∧
    ∃ d < n, ∀ p : Place, p.depth n letter.pivot = (d : Nat) → ¬ letter.Takes width n p

theorem Letter.divides {letter : Letter} {width n : Nat} (one_le : 1 ≤ width) (lt : width < n)
    (whole : ∀ axis, letter ≠ .rotation axis) (between : n = 2 → ∀ slice, letter ≠ .slice slice) :
    letter.Divides width n := by
  cases letter with
  | outer face =>
    refine ⟨⟨0, by omega, fun p h => ?_⟩, n - 1, by omega, fun p h => ?_⟩ <;>
      simp only [Takes, h] <;> omega
  | thick face =>
    refine ⟨⟨0, by omega, fun p h => ?_⟩, n - 1, by omega, fun p h => ?_⟩ <;>
      simp only [Takes, h] <;> omega
  | rotation axis => exact absurd rfl (whole axis)
  | slice slice =>
    have three_le : 3 ≤ n := by
      by_contra small
      exact between (by omega) slice rfl
    refine ⟨⟨1, by omega, fun p h => ?_⟩, 0, by omega, fun p h => ?_⟩ <;>
      simp only [Takes, h] <;> omega

namespace Facelets

variable {n : Nat} {six shown : Scheme} {m : Move}

/-- What a sticker shows where it has come to, if every face is uniform again. -/
theorem get_eq_of_carried (fits : m.width < n) (h : make m (solved n six) = solved n shown)
    {p q : Spot n} (carried : q.place = m.carry n p.place) :
    shown.get q.face = six.get p.face := by
  obtain ⟨q', hq', moved⟩ := carries_make fits p
  cases Spot.place_injective (hq'.trans carried.symm)
  have kept := moved (solved n six)
  rw [h] at kept
  simpa only [Facelets.shown, sticker_solved] using kept

/-- On a side of the pivot, a sticker that stays meets one from another side. -/
theorem not_isSolved_make_solved (distinct : six.toList.Nodup) (fits : m.width < n)
    (divides : m.letter.Divides m.width n) : ¬ (make m (solved n six)).isSolved = true := by
  intro uniform
  obtain ⟨⟨d, hd, takes⟩, e, he, leaves⟩ := divides
  obtain ⟨shown, hshown⟩ := (isSolved_iff (Nat.zero_lt_of_lt fits) _).1 uniform
  have beside : m.letter.pivot.above.axis ≠ m.letter.pivot.axis := by
    cases m.letter.pivot <;> decide
  obtain ⟨p, hp, deep⟩ := Spot.exists_depth_place beside hd
  obtain ⟨q, hq, -⟩ := carries_make fits p
  have turned : q.face.normal = Nat.repeat (Point.turned m.letter.pivot)
      m.amount.quarterTurns m.letter.pivot.above.normal := by
    have facing := congrArg Place.facing hq
    rw [Move.carry_of_takes (takes _ deep), Place.facing_repeat_turned] at facing
    rw [← hp]
    exact facing
  obtain ⟨elsewhere, aside⟩ := Face.ne_of_normal_eq_repeat turned
  obtain ⟨r, hr, shallow⟩ := Spot.exists_depth_place aside he
  have stays := (Move.carry_of_not_takes (leaves r.place shallow)).symm
  have same : six.get p.face = six.get r.face := by
    rw [← get_eq_of_carried fits hshown hq, ← get_eq_of_carried fits hshown stays, hr]
  -- One has come to the face where the other stayed, so their colors agree though they
  -- belong to different faces.
  refine elsewhere ?_
  rw [← hr, ← hp]
  exact (PerFace.nodup_toList_iff.1 distinct same).symm

/-- Nothing lies between the two layers of the smallest cube. -/
theorem make_slice_of_two {slice : Slice} (two : n = 2) (h : m.letter = .slice slice)
    (fits : m.width < n) (s : Facelets n) : make m s = s := by
  refine ((carries_make fits).congr fun p => ?_).unique carries_still Function.injective_id s
  refine Move.carry_of_not_takes ?_
  rw [h]
  show ¬ (1 ≤ p.place.depth n slice.face ∧ p.place.depth n slice.face ≤ n - 2)
  omega

end Facelets

/-! ## Turns of the whole cube -/

def Move.IsRotation (m : Move) : Prop := ∃ axis, m.letter = .rotation axis

/-- Whether an operation does nothing but turn the cube as a whole. -/
def Operation.IsRotation {G : Type} : Operation G → Prop
  | .turn m => m.IsRotation
  | .apply a => ∀ m ∈ a, m.IsRotation
  | .applyText text => ∀ a, Algorithm.parse text = .ok a → ∀ m ∈ a, m.IsRotation
  | .rotate _ => True
  | .turnTop _ | .reset | .scramble _ _ => False

namespace Cube

open Facelets

variable {n : Nat}

theorem isSolved_apply_rotations {c d : Cube n} {a : Algorithm} (lies : c.isSolved = true)
    (turns : ∀ m ∈ a, m.IsRotation) (h : c.apply a = .ok d) : d.isSolved = true := by
  have pos : 0 < n := Nat.zero_lt_of_lt c.two_le
  obtain ⟨-, rfl⟩ := apply_eq_ok h
  obtain ⟨shown, hs⟩ := (isSolved_iff pos _).1 lies
  refine (isSolved_iff pos _).2 ?_
  show ∃ last, makeAll a c.state = solved n last
  rw [hs]
  exact exists_makeAll_solved turns shown

theorem isSolved_turn_rotation {c d : Cube n} {m : Move} (lies : c.isSolved = true)
    (turns : m.IsRotation) (h : c.turn m = .ok d) : d.isSolved = true := by
  obtain ⟨fits, rfl⟩ := turn_eq_ok h
  have all : ∀ k ∈ [m], k.IsRotation := by
    intro k hk
    rwa [List.mem_singleton.1 hk]
  have one : ∀ k ∈ [m], k.width < n := by
    intro k hk
    rwa [List.mem_singleton.1 hk]
  exact isSolved_apply_rotations lies all (apply_eq_of_fits one)

section Operations

variable {G : Type} [Source G] [Hashable (Facelets n)]

theorem isSolved_perform {c : Cube n} (lies : c.isSolved = true) {op : Operation G}
    (turns : op.IsRotation) : (c.perform op).1.isSolved = true := by
  cases h : c.attempt op with
  | error error =>
    rw [perform_of_error h]
    exact lies
  | ok d =>
    have done : (c.perform op).1 = d := by simp only [perform, h]
    rw [done]
    cases op with
    | turn m => exact isSolved_turn_rotation lies turns h
    | apply a => exact isSolved_apply_rotations lies turns h
    | applyText text =>
      obtain ⟨a, parsed, applied⟩ := applyText_eq_ok_iff.1 h
      exact isSolved_apply_rotations lies (turns a parsed) applied
    | rotate axis =>
      cases h
      exact isSolved_turn_rotation lies ⟨axis, rfl⟩
        (turn_eq_of_fits (m := .single (.rotation axis) .clockwise) c.two_le c)
    | turnTop layers => exact turns.elim
    | reset => exact turns.elim
    | scramble g length => exact turns.elim

theorem isSolved_performAll {c : Cube n} (lies : c.isSolved = true) {ops : List (Operation G)}
    (turns : ∀ op ∈ ops, op.IsRotation) : (c.performAll ops).isSolved = true := by
  induction ops generalizing c with
  | nil => exact lies
  | cons op rest ih =>
    obtain ⟨hop, hrest⟩ := List.forall_mem_cons.1 turns
    exact ih (isSolved_perform lies hop) hrest

/-- What a single move makes of a cube that is solved, however it lies: it stays solved when
it is turned as a whole, and when a slice finds nothing to turn. -/
theorem isSolved_turn_iff (two_le : 2 ≤ n) (six : PerFace Char) (distinct : six.toList.Nodup)
    (ops : List (Operation G)) (turns : ∀ op ∈ ops, op.IsRotation) (m : Move) (fits : m.width < n) :
    ∃ c d : Cube n, Cube.new n (String.ofList six.toList) = .ok c ∧
      (c.performAll ops).isSolved = true ∧ (c.performAll ops).turn m = .ok d ∧
      (d.isSolved = true ↔ m.IsRotation ∨ (n = 2 ∧ ∃ slice, m.letter = .slice slice)) ∧
      ((n = 2 ∧ ∃ slice, m.letter = .slice slice) → d = c.performAll ops) := by
  have pos : 0 < n := Nat.zero_lt_of_lt two_le
  obtain ⟨c, made⟩ : ∃ c : Cube n, c.colors = six ∧ c.IsNew :=
    ⟨⟨six, solved n six, solved n six, two_le, distinct⟩, rfl, rfl, rfl⟩
  obtain ⟨rfl, fresh⟩ := made
  have lies : (c.performAll ops).isSolved = true :=
    isSolved_performAll ((isSolved_iff pos _).2 ⟨_, fresh.state⟩) turns
  obtain ⟨spin, hspin⟩ := eq_solved_spun (rearranged_performAll pos fresh ops) distinct lies
  refine ⟨c, _, new_eq_ok_iff.2 ⟨(String.toList_ofList).symm, fresh⟩, lies,
    turn_eq_of_fits fits _, ⟨?_, ?_⟩, ?_⟩
  · intro uniform
    by_contra neither
    have divides := Letter.divides m.width_pos fits
      (fun axis h => neither (Or.inl ⟨axis, h⟩))
      (fun two slice h => neither (Or.inr ⟨two, slice, h⟩))
    refine not_isSolved_make_solved (PerFace.nodup_spun distinct spin) fits divides ?_
    rw [← hspin]
    exact uniform
  · intro h
    rcases h with rotation | ⟨two, slice, h⟩
    · exact isSolved_turn_rotation lies rotation (turn_eq_of_fits fits _)
    · rw [make_slice_of_two two h fits]
      exact lies
  · intro h
    obtain ⟨two, slice, h⟩ := h
    rw [make_slice_of_two two h fits]

end Operations

/-- Half a turn of a middle layer brings the opposite colors beside four of the centers. -/
theorem isSolved_turn_halfSlice :
    let lying : List Operation := [.rotate .y, .turn (.single (.rotation .x) .half)]
    let middle : Move := .single (.slice .s) .half
    2 ≤ defaultSize ∧ standard.colors.toList.Nodup ∧
      (∀ op ∈ lying, op.IsRotation) ∧ middle.width < defaultSize ∧
      ∃ d : Cube defaultSize, (standard.performAll lying).turn middle = .ok d ∧
        (standard.performAll lying).isSolved = true ∧ d.isSolved = false := by
  intro lying middle
  have turns : ∀ op ∈ lying, op.IsRotation := by
    simp [lying, Operation.IsRotation, Move.IsRotation, Move.single]
  refine ⟨by decide, by decide, turns, by decide, ?_⟩
  obtain ⟨c, d, made, lies, turned, unsolved, -⟩ :=
    isSolved_turn_iff (n := defaultSize) (by decide) standard.colors (by decide) lying turns
      middle (by decide)
  cases made.symm.trans new_standard
  refine ⟨d, turned, lies, ?_⟩
  rw [← Bool.not_eq_true, unsolved]
  simp [middle, Move.IsRotation, Move.single, defaultSize]

end Cube

end Twisty
