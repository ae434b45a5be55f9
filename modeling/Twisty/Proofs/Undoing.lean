import Twisty.Proofs.Carrying
import Twisty.Proofs.Composed

/-! Undoing. Four quarter turns of any kind bring every sticker back, since they take its
place around the whole circle, so a move is undone by its inverse, and an algorithm by the
inverses of its moves in the opposite order. -/

namespace Twisty

namespace Facelets

variable {n : Nat}

theorem quarterTurn_four {width : Nat} (one_le : 1 ≤ width) (lt : width < n) (letter : Letter)
    (s : Facelets n) :
    quarterTurn letter width (quarterTurn letter width
      (quarterTurn letter width (quarterTurn letter width s))) = s := by
  have turn := carries_quarterTurn (n := n) one_le lt letter
  have round := ((turn.comp turn).comp turn).comp turn
  exact (round.congr fun p => letter.carry_four width n p.place).unique carries_still
    Function.injective_id s

theorem make_inverse_make {m : Move} (fits : m.width < n) (s : Facelets n) :
    make m.inverse (make m s) = s :=
  Amount.act_inverse_act (quarterTurn_four m.width_pos fits m.letter) m.amount s

/-- By induction on the moves: the first one is undone last. -/
theorem makeAll_inverse_makeAll {a : Algorithm} (fits : ∀ m ∈ a, m.width < n)
    (s : Facelets n) : makeAll a.inverse (makeAll a s) = s := by
  induction a generalizing s with
  | nil => rfl
  | cons m rest ih =>
    obtain ⟨hm, hrest⟩ := List.forall_mem_cons.1 fits
    calc makeAll (Algorithm.inverse (m :: rest)) (makeAll (m :: rest) s)
        = make m.inverse (makeAll (Algorithm.inverse rest) (makeAll rest (make m s))) := by
          rw [Algorithm.inverse_cons, makeAll_append]
          rfl
      _ = make m.inverse (make m s) := by rw [ih hrest]
      _ = s := make_inverse_make hm s

end Facelets

/-- Inverting changes no width. -/
theorem Algorithm.fits_inverse_iff {n : Nat} {a : Algorithm} :
    (∀ m ∈ a.inverse, m.width < n) ↔ ∀ m ∈ a, m.width < n := by
  refine ⟨fun h m hm => ?_, fun h m hm => h m.inverse (mem_inverse_iff.1 hm)⟩
  exact h m.inverse (mem_inverse_iff.2 (m.inverse_inverse.symm ▸ hm))

namespace Cube

open Facelets

variable {n : Nat} {c d : Cube n} {a : Algorithm} {m : Move}

/-! ## Algorithms -/

theorem exists_apply_eq_ok_iff : (∃ d, c.apply a = .ok d) ↔ ∀ m ∈ a, m.width < n :=
  ⟨fun ⟨_, h⟩ => fits_of_apply h, fun fits => ⟨_, apply_eq_of_fits fits⟩⟩

theorem apply_inverse_of_apply (h : c.apply a = .ok d) : d.apply a.inverse = .ok c := by
  obtain ⟨fits, rfl⟩ := apply_eq_ok h
  rw [apply_eq_of_fits (Algorithm.fits_inverse_iff.2 fits)]
  dsimp only
  rw [makeAll_inverse_makeAll fits]

theorem apply_eq_ok_iff_inverse : c.apply a = .ok d ↔ d.apply a.inverse = .ok c := by
  refine ⟨apply_inverse_of_apply, fun h => ?_⟩
  have back := apply_inverse_of_apply h
  rwa [Algorithm.inverse_inverse] at back

/-! ## Single moves -/

theorem exists_turn_eq_ok_iff : (∃ d, c.turn m = .ok d) ↔ m.width < n :=
  ⟨fun ⟨_, h⟩ => (turn_eq_ok h).1, fun fits => ⟨_, turn_eq_of_fits fits c⟩⟩

theorem turn_inverse_of_turn (h : c.turn m = .ok d) : d.turn m.inverse = .ok c := by
  obtain ⟨fits, rfl⟩ := turn_eq_ok h
  rw [turn_eq_of_fits (m := m.inverse) fits]
  dsimp only
  rw [make_inverse_make fits]

theorem turn_eq_ok_iff_inverse : c.turn m = .ok d ↔ d.turn m.inverse = .ok c := by
  refine ⟨turn_inverse_of_turn, fun h => ?_⟩
  have back := turn_inverse_of_turn h
  rwa [Move.inverse_inverse] at back

/-- Whatever a cube shows, an algorithm can be made on it just when its inverse can be, and
either of them takes back what the other has done. So it is with a single move. -/
theorem inverse_undoes (c : Cube n) :
    (∀ a : Algorithm, ((∃ d, c.apply a = .ok d) ↔ ∃ d, c.apply a.inverse = .ok d) ∧
      ∀ d : Cube n, (c.apply a = .ok d ↔ d.apply a.inverse = .ok c) ∧
        (c.apply a.inverse = .ok d ↔ d.apply a = .ok c)) ∧
    ∀ m : Move, ((∃ d, c.turn m = .ok d) ↔ ∃ d, c.turn m.inverse = .ok d) ∧
      ∀ d : Cube n, (c.turn m = .ok d ↔ d.turn m.inverse = .ok c) ∧
        (c.turn m.inverse = .ok d ↔ d.turn m = .ok c) := by
  refine ⟨fun a => ⟨?_, fun d => ⟨apply_eq_ok_iff_inverse, apply_eq_ok_iff_inverse.symm⟩⟩,
    fun m => ⟨?_, fun d => ⟨turn_eq_ok_iff_inverse, turn_eq_ok_iff_inverse.symm⟩⟩⟩
  · rw [exists_apply_eq_ok_iff, exists_apply_eq_ok_iff, Algorithm.fits_inverse_iff]
  · rw [exists_turn_eq_ok_iff, exists_turn_eq_ok_iff]
    rfl

end Cube

end Twisty
