import Twisty.Proofs.Carrying
import Mathlib.Logic.Function.Iterate

/-! Parallel moves. A turn about an axis leaves every sticker in its layer below the two
faces on that axis, so it changes nothing about what other moves about this axis take
along. Of two such moves either may come first, whether their layers overlap or not. -/

namespace Twisty

/-- The axis that the layers of a move turn about. -/
def Letter.axis : Letter → Axis
  | outer face => face.axis
  | thick face => face.axis
  | rotation axis => axis
  | slice .m => .x
  | slice .e => .y
  | slice .s => .z

theorem Letter.axis_pivot (letter : Letter) : letter.pivot.axis = letter.axis := by
  cases letter with
  | outer face => rfl
  | thick face => rfl
  | rotation axis => cases axis <;> rfl
  | slice between => cases between <;> rfl

/-! ## Turns about one axis -/

namespace Place

variable {face other : Face}

theorem depth_turned_of_axis (same : face.axis = other.axis) (n : Nat) (p : Place) :
    (p.turned other).depth n face = p.depth n face := by
  obtain rfl | rfl := Face.axis_eq_iff.1 same
  · exact depth_turned n other p
  · exact depth_turned_opposite n face p

theorem turned_commute (same : face.axis = other.axis) :
    Function.Commute (turned face) (turned other) := by
  intro p
  obtain rfl | rfl := Face.axis_eq_iff.1 same
  · rfl
  · rw [turned_turned_opposite, turned_opposite_turned]

end Place

namespace Letter

variable {letter other : Letter}

/-- What a move takes along it still takes after a turn about its axis. -/
theorem takes_turned_of_axis (same : letter.axis = other.axis) (width n : Nat) (p : Place) :
    letter.Takes width n (p.turned other.pivot) ↔ letter.Takes width n p := by
  have kept : (p.turned other.pivot).depth n letter.pivot = p.depth n letter.pivot := by
    refine Place.depth_turned_of_axis ?_ n p
    rw [axis_pivot, axis_pivot, same]
  cases letter <;> simp only [Takes, kept]

theorem carry_commute (same : letter.axis = other.axis) (width deep n : Nat) :
    Function.Commute (letter.carry width n) (other.carry deep n) := by
  intro p
  have pivots : letter.pivot.axis = other.pivot.axis := by
    rw [axis_pivot, axis_pivot, same]
  have first := takes_turned_of_axis same width n p
  have second := takes_turned_of_axis same.symm deep n p
  -- Neither changes what the other takes, so four cases are enough.
  by_cases hl : letter.Takes width n p
  · by_cases ho : other.Takes deep n p
    · rw [carry_of_takes ho, carry_of_takes hl, carry_of_takes (first.2 hl),
        carry_of_takes (second.2 ho)]
      exact Place.turned_commute pivots p
    · rw [carry_of_not_takes ho, carry_of_takes hl, carry_of_not_takes (mt second.1 ho)]
  · by_cases ho : other.Takes deep n p
    · rw [carry_of_takes ho, carry_of_not_takes hl, carry_of_not_takes (mt first.1 hl),
        carry_of_takes ho]
    · rw [carry_of_not_takes ho, carry_of_not_takes hl, carry_of_not_takes ho]

end Letter

theorem Amount.act_eq_iterate {α : Type} (amount : Amount) (f : α → α) :
    amount.act f = f^[amount.quarterTurns] := by
  cases amount <;> rfl

theorem Move.carry_commute {m k : Move} (same : m.letter.axis = k.letter.axis) (n : Nat) :
    Function.Commute (m.carry n) (k.carry n) := by
  rw [m.carry_eq_act, k.carry_eq_act, Amount.act_eq_iterate, Amount.act_eq_iterate]
  exact (Letter.carry_commute same m.width k.width n).iterate_iterate _ _

namespace Facelets

variable {n : Nat}

/-- Moves about one axis may be made in either order, whatever a cube shows. -/
theorem make_make_of_axis {m k : Move} (same : m.letter.axis = k.letter.axis)
    (hm : m.width < n) (hk : k.width < n) (s : Facelets n) :
    make m (make k s) = make k (make m s) := by
  have last := (carries_make (n := n) hk).comp (carries_make hm)
  have first := (carries_make (n := n) hm).comp (carries_make hk)
  have motions := Move.carry_commute same n
  refine (last.congr fun p => motions p.place).unique first ?_ s
  exact (k.carry_injective n).comp (m.carry_injective n)

/-- Four layers from the left and three from the right have two in common. -/
theorem make_make_overlapping :
    let left : Move := ⟨4, .outer .l, .half, by decide, by decide, fun _ => rfl⟩
    let right : Move := ⟨3, .outer .r, .clockwise, by decide, by decide, fun _ => rfl⟩
    left.letter.axis = right.letter.axis ∧ left.width < 5 ∧ right.width < 5 ∧
      ∀ s : Facelets 5, make left (make right s) = make right (make left s) := by
  intro left right
  have same : left.letter.axis = right.letter.axis := rfl
  have hl : left.width < 5 := by decide
  have hr : right.width < 5 := by decide
  exact ⟨same, hl, hr, make_make_of_axis same hl hr⟩

end Facelets

end Twisty
