import Twisty.Proofs.Reachable

/-! What moves do to the validator's answer. What follows a scheme still follows it when it
is rearranged, and every motion can be taken back, so a layout is valid after a move just
when it was valid before, reachable or not. The scheme that is found is then the one before
as the cube lies now. -/

namespace Twisty

theorem Layout.isValid_iff {layout : Layout} {size : Nat} :
    layout.isValid size = true ↔ ∃ scheme, layout.validate size = .ok scheme := by
  rw [isValid]
  cases layout.validate size with
  | error fault => simp [Except.isOk, Except.toBool]
  | ok scheme => simp [Except.isOk, Except.toBool]

namespace Facelets

open Layout

variable {n : Nat} {s t : Facelets n} {scheme : Scheme}

/-- Wherever the three stickers at URF have gone, the corner that is there now shows the
same scheme. -/
theorem Reaches.exists_validate_eq_ok (h : Reaches s t)
    (valid : s.toLayout.validate n = .ok scheme) :
    ∃ spin : Spin, t.toLayout.validate n = .ok (scheme.spun spin) := by
  obtain ⟨two_le, -⟩ := exists_toLayout_of_validate valid
  have pos : 0 < n := Nat.zero_lt_of_lt two_le
  have moved : Rearranged pos s t := .of_reaches h
  obtain ⟨⟨balanced, centers⟩, follows, -⟩ :=
    (validate_toLayout_eq_ok_iff s two_le pos scheme).1 valid
  have still := moved.follows follows
  obtain ⟨spin, front⟩ := still.exists_front
  refine ⟨spin, (validate_toLayout_eq_ok_iff t two_le pos _).2 ⟨⟨?_, ?_⟩, still.spun spin, front⟩⟩
  · exact moved.balanced balanced
  · exact fun odd => moved.center_injective odd (centers odd)

theorem Reaches.isValid_iff (h : Reaches s t) :
    t.toLayout.isValid n = true ↔ s.toLayout.isValid n = true := by
  rw [Layout.isValid_iff, Layout.isValid_iff]
  refine ⟨?_, ?_⟩
  · rintro ⟨_, valid⟩
    obtain ⟨_, before⟩ := h.symm.exists_validate_eq_ok valid
    exact ⟨_, before⟩
  · rintro ⟨_, valid⟩
    obtain ⟨_, after⟩ := h.exists_validate_eq_ok valid
    exact ⟨_, after⟩

/-- No move repairs a layout and none breaks one, whatever its stickers are. -/
theorem isValid_make_iff (s : Facelets n) {m : Move} (fits : m.width < n) :
    ((make m s).toLayout.isValid n = true ↔ s.toLayout.isValid n = true) ∧
    ∀ scheme, s.toLayout.validate n = .ok scheme →
      ∃ spin : Spin, (make m s).toLayout.validate n = .ok (scheme.spun spin) := by
  have moved : Reaches s (make m s) := (Composed.make fits).reaches s
  exact ⟨moved.isValid_iff, fun _ => moved.exists_validate_eq_ok⟩

/-- A small cube with two stickers of the corner URF exchanged. No piece has them in that
order. -/
def mirrored : Facelets 2 :=
  ⟨.ofFn fun i j => if i = 1 ∧ j = 1 then 'g' else 'w',
    .ofFn fun i j => if i = 0 ∧ j = 1 then 'w' else 'g',
    .filled 2 'r', .filled 2 'b', .filled 2 'o', .filled 2 'y'⟩

theorem isValid_make_mirrored :
    (Move.single (.outer .r) .counterclockwise).width < 2 ∧
      mirrored.toLayout.isValid 2 = false ∧
      (make (.single (.outer .r) .counterclockwise) mirrored).toLayout.isValid 2 = false := by
  have fits : (Move.single (.outer .r) .counterclockwise).width < 2 := by decide
  have broken : mirrored.toLayout.isValid 2 = false := by decide
  refine ⟨fits, broken, ?_⟩
  rw [← Bool.not_eq_true, (isValid_make_iff mirrored fits).1, broken]
  exact Bool.false_ne_true

end Facelets

end Twisty
