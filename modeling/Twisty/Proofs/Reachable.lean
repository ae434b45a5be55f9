import Twisty.CommandLine.Tools
import Twisty.Facelets.Fingerprint
import Twisty.Proofs.Genuine
import Twisty.Proofs.Rearrangement
import Twisty.Proofs.Solved

/-! Reachable cubes. What moves make of a solved cube follows the scheme of that cube,
seen as the cube lies now, so the validator accepts it and returns this scheme. A
reachable cube whose faces have one color each is the solved one, turned as a whole. -/

namespace Twisty

open Corner

namespace Facelets

variable {n : Nat} {pos : 0 < n} {six : Scheme} {s t : Facelets n}

theorem Rearranged.balanced (h : Rearranged pos s t) (balanced : s.Balanced) :
    t.Balanced := by
  have colors : t.stickers.toFinset = s.stickers.toFinset := by
    ext color
    rw [List.mem_toFinset, List.mem_toFinset, h.stickers.mem_iff]
  refine ⟨colors ▸ balanced.1, fun color hc => ?_⟩
  rw [h.stickers.count_eq]
  exact balanced.2 color (h.stickers.mem_iff.1 hc)

/-- What follows a scheme still does when it is rearranged, though it may lie another way. -/
theorem Rearranged.follows (h : Rearranged pos s t) (follows : s.Follows pos six) :
    t.Follows pos six where
  distinct := follows.distinct
  colors color := by rw [h.stickers.mem_iff, follows.colors]
  pieces := h.pieces.trans follows.pieces
  centers odd face := by
    obtain ⟨spin, moved⟩ := h.centers odd
    obtain ⟨home, hc, ho⟩ := follows.centers odd (spin.source face)
    refine ⟨home, ?_, ?_⟩
    · rw [moved, hc]
    · rw [moved, spin.source_opposite, ho]

theorem Rearranged.center_injective (h : Rearranged pos s t) (odd : n % 2 = 1)
    (distinct : Function.Injective (s.center pos)) : Function.Injective (t.center pos) := by
  obtain ⟨spin, moved⟩ := h.centers odd
  intro face other e
  rw [moved, moved] at e
  exact spin.source_injective (distinct e)

theorem follows_solved (pos : 0 < n) (distinct : six.toList.Nodup) :
    (solved n six).Follows pos six where
  distinct := distinct
  colors _ := (mem_stickers_solved pos).symm
  pieces := by rw [corners_solved]
  centers _ face := ⟨face, (center_solved six face).symm, (center_solved six _).symm⟩

theorem center_solved_injective (pos : 0 < n) (distinct : six.toList.Nodup) :
    Function.Injective ((solved n six).center pos) := by
  intro face other e
  rw [center_solved, center_solved] at e
  exact PerFace.nodup_toList_iff.1 distinct e

/-- A uniform cube with the pieces of a scheme is that of the scheme, turned as a whole. -/
theorem eq_solved_spun (h : Rearranged pos (solved n six) t) (distinct : six.toList.Nodup)
    (uniform : t.isSolved = true) : ∃ spin : Spin, t = solved n (six.spun spin) := by
  obtain ⟨shown, rfl⟩ := (isSolved_iff pos t).1 uniform
  have same : rounds (Scheme.pieces shown) = rounds (Scheme.pieces six) := by
    have hp := h.pieces
    rwa [corners_solved, corners_solved] at hp
  have colors : ∀ color ∈ six.toList, color ∈ shown.toList := by
    intro color hc
    rwa [← Scheme.exists_mem_round_iff, same, Scheme.exists_mem_round_iff]
  have all : six.toList.Perm shown.toList :=
    (List.subperm_of_subset distinct colors).perm_of_length_le (Nat.le_refl 6)
  obtain ⟨spin, hs⟩ := Scheme.exists_eq_spun (all.nodup_iff.1 distinct) distinct same
  exact ⟨spin, by rw [hs]⟩

/-- The validator tells the scheme of a cube that moves have led to, as URF shows it. -/
theorem validate_of_rearranged (two_le : 2 ≤ n) (h : Rearranged pos (solved n six) t)
    (distinct : six.toList.Nodup) :
    ∃ spin : Spin, t.toLayout.validate n = .ok (six.spun spin) ∧
      (∀ other : Spin, urf.map (six.spun other).get = t.corner pos urf ↔ other = spin) ∧
      (t.isSolved = true → t = solved n (six.spun spin)) := by
  have follows := h.follows (follows_solved pos distinct)
  have balanced := h.balanced (balanced_solved pos distinct)
  obtain ⟨spin, front⟩ := follows.exists_front
  have one : ∀ other : Spin, urf.map (six.spun other).get = t.corner pos urf ↔ other = spin := by
    intro other
    rw [← front]
    exact Scheme.map_urf_spun_iff distinct
  refine ⟨spin, ?_, one, fun uniform => ?_⟩
  · exact (Layout.validate_toLayout_eq_ok_iff t two_le pos _).2
      ⟨⟨balanced, fun odd => h.center_injective odd (center_solved_injective pos distinct)⟩,
        follows.spun spin, front⟩
  · obtain ⟨now, ht⟩ := eq_solved_spun h distinct uniform
    have hnow : now = spin := by
      rw [← one now, ht, corner_solved]
    rw [ht, hnow]

end Facelets

theorem Move.width_eq_one {m : Move} {axis : Axis} (h : m.letter = .rotation axis) :
    m.width = 1 := by
  have one_le := m.width_pos
  have wide := m.outer_of_wide
  rw [h] at wide
  by_contra hne
  exact Bool.false_ne_true (wide (by omega))

namespace Cube

open Facelets CommandLine

variable {n : Nat}

/-- Whether a cube is as cubes are made. -/
structure IsNew (c : Cube n) : Prop where
  state : c.state = .solved n c.colors
  original : c.original = .solved n c.colors

theorem new_eq_ok_iff {text : String} {c : Cube n} :
    Cube.new n text = .ok c ↔ c.colors.toList = text.toList ∧ c.IsNew := by
  refine ⟨?_, ?_⟩
  · intro h
    unfold new at h
    split at h
    · split at h
      · cases h
      · rename_i six found
        split at h
        · cases h
        · cases h
          exact ⟨PerFace.ofList?_eq_some_iff.1 found, rfl, rfl⟩
    · cases h
  · obtain ⟨colors, state, original, two_le, distinct⟩ := c
    rintro ⟨spelled, fresh, kept⟩
    dsimp only at spelled fresh kept
    rw [new, dif_pos two_le, ← spelled, PerFace.ofList?_toList, fresh, kept]
    dsimp only
    split
    · rename_i color repeats
      rw [(Palette.firstRepeat?_eq_none_iff _).2 distinct] at repeats
      cases repeats
    · rfl

theorem new_standard :
    Cube.new defaultSize (String.ofList standard.colors.toList) = .ok standard :=
  new_eq_ok_iff.2 ⟨(String.toList_ofList).symm, rfl, rfl⟩

theorem rearranged_performAll {G : Type} [Source G] [Hashable (Facelets n)] {c : Cube n}
    (pos : 0 < n) (fresh : c.IsNew) (ops : List (Operation G)) :
    Rearranged pos (.solved n c.colors) (c.performAll ops).state := by
  have start : Reaches c.original c.state := by
    rw [fresh.state, fresh.original]
    exact Reaches.refl _
  rw [← fresh.original]
  exact .of_reaches (reaches_performAll start ops).2.2

/-- A validation of a cube that was made new never says that it is invalid. -/
theorem perform_validate [∀ k, Hashable (Facelets k)] {tools : Tools} {c : Cube n}
    (fresh : c.IsNew) {text output : String} {usualLength : Option Nat} {freshSeed : Nat}
    (h : (Task.validate text).perform tools c usualLength freshSeed = .ok output) :
    ∃ scheme : Scheme,
      output = Task.printed [green "VALID" ++ " " ++ Task.schemeText scheme] := by
  unfold Task.perform at h
  dsimp only at h
  cases applied : c.applyText text with
  | error error => rw [applied] at h; cases h
  | ok d =>
    rw [applied] at h
    cases h
    have done : c.performAll [Operation.applyText (G := tools.Random) text] = d := by
      simp only [performAll, perform, attempt, applied]
    have moved := rearranged_performAll (Nat.zero_lt_of_lt c.two_le) fresh
      [Operation.applyText (G := tools.Random) text]
    rw [done] at moved
    obtain ⟨spin, valid, -⟩ := validate_of_rearranged c.two_le moved c.distinct
    exact ⟨c.colors.spun spin, by rw [Task.validity, valid]⟩

/-- Whatever is done to a new cube, the validator accepts it, and finds the colors of the
cube turned as URF shows them. Of a solved cube these are the colors of the faces. No
validation on the command line prints that a cube is invalid. All this is so wherever
random numbers and hashes come from. -/
theorem validate_performAll {G : Type} [Source G] [∀ k, Hashable (Facelets k)] (two_le : 2 ≤ n)
    (six : PerFace Char) (distinct : six.toList.Nodup) :
    ∃ c : Cube n, Cube.new n (String.ofList six.toList) = .ok c ∧
      (∀ ops : List (Operation G), ∃ spin : Spin,
        (c.performAll ops).state.toLayout.validate n = .ok (six.spun spin) ∧
        (∀ other : Spin, urf.map (six.spun other).get =
          (c.performAll ops).state.corner (Nat.zero_lt_of_lt two_le) urf ↔ other = spin) ∧
        ((c.performAll ops).isSolved = true → ∀ face i j,
          (c.performAll ops).state.sticker face i j = (six.spun spin).get face)) ∧
      ∀ (tools : Tools) (overrides : Overrides) (text : String) (s : Surroundings)
        (output : String), Request.perform ⟨overrides, .validate text⟩ tools s = .ok output →
          ∃ scheme : Scheme,
            output = Task.printed [green "VALID" ++ " " ++ Task.schemeText scheme] := by
  refine ⟨⟨six, .solved n six, .solved n six, two_le, distinct⟩,
    new_eq_ok_iff.2 ⟨(String.toList_ofList).symm, rfl, rfl⟩, fun ops => ?_, ?_⟩
  · have moved := rearranged_performAll (c := ⟨six, .solved n six, .solved n six, two_le, distinct⟩)
      (Nat.zero_lt_of_lt two_le) ⟨rfl, rfl⟩ ops
    obtain ⟨spin, valid, one, shown⟩ := validate_of_rearranged two_le moved distinct
    refine ⟨spin, valid, one, fun uniform face i j => ?_⟩
    rw [shown uniform, sticker_solved]
  · intro tools overrides text s output h
    unfold Request.perform at h
    split at h
    · cases h
    · split at h
      · cases h
      · rename_i c made
        exact perform_validate (new_eq_ok_iff.1 made).2 h

theorem validate_middle_turned : 2 ≤ defaultSize ∧ standard.colors.toList.Nodup ∧
    ∃ spin : Spin, (standard.performAll (G := Generator)
      [.apply [.single (.slice .m) .clockwise, .single (.outer .r) .half], .rotate .y,
        .turnTop 2]).state.toLayout.validate defaultSize = .ok (standard.colors.spun spin) := by
  refine ⟨by decide, by decide, ?_⟩
  obtain ⟨c, made, valid, -⟩ :=
    validate_performAll (n := defaultSize) (G := Generator) (by decide) standard.colors
      (by decide)
  cases made.symm.trans new_standard
  obtain ⟨spin, h, -⟩ := valid [.apply [.single (.slice .m) .clockwise, .single (.outer .r) .half],
    .rotate .y, .turnTop 2]
  exact ⟨spin, h⟩

/-! ## Solved again -/

/-- Turns of the whole cube fit every cube. -/
theorem fits_of_rotations {r : Algorithm} (two_le : 2 ≤ n)
    (turns : ∀ m ∈ r, ∃ axis, m.letter = .rotation axis) : ∀ m ∈ r, m.width < n := by
  intro m hm
  obtain ⟨axis, h⟩ := turns m hm
  rw [Move.width_eq_one h]
  exact two_le

/-- A new cube is solved after an algorithm just when turning it as a whole would have
done the same. -/
theorem isSolved_apply_iff (two_le : 2 ≤ n) (six : PerFace Char) (distinct : six.toList.Nodup)
    (a : Algorithm) (fits : ∀ m ∈ a, m.width < n) :
    ∃ c d : Cube n, Cube.new n (String.ofList six.toList) = .ok c ∧ c.apply a = .ok d ∧
      (d.isSolved = true ↔ ∃ r : Algorithm,
        (∀ m ∈ r, ∃ axis, m.letter = .rotation axis) ∧ c.apply r = .ok d) := by
  have pos : 0 < n := Nat.zero_lt_of_lt two_le
  refine ⟨⟨six, solved n six, solved n six, two_le, distinct⟩,
    ⟨six, makeAll a (solved n six), solved n six, two_le, distinct⟩,
    new_eq_ok_iff.2 ⟨(String.toList_ofList).symm, rfl, rfl⟩, apply_eq_of_fits fits, ?_, ?_⟩
  · intro uniform
    have moved : Rearranged pos (solved n six) (makeAll a (solved n six)) :=
      .of_reaches ((Composed.makeAll fits).reaches _)
    obtain ⟨spin, shown⟩ := eq_solved_spun moved distinct uniform
    obtain ⟨turns, rfl⟩ := spin.exists_turns
    have rotations := rotation_of_mem_turnMoves turns
    refine ⟨turnMoves turns, rotations, ?_⟩
    rw [apply_eq_of_fits (fits_of_rotations two_le rotations)]
    dsimp only
    rw [makeAll_turnMoves, ← shown]
  · rintro ⟨r, turns, done⟩
    rw [apply_eq_of_fits (fits_of_rotations two_le turns)] at done
    have states := congrArg Cube.state (Except.ok.inj done)
    obtain ⟨shown, h⟩ := exists_makeAll_solved turns six
    exact (isSolved_iff pos _).2 ⟨shown, states.symm.trans h⟩

/-- All layers next to each other, turned alike, one after another. -/
def allLayers : Algorithm :=
  [.single (.outer .l) .clockwise, .single (.slice .m) .clockwise,
    .single (.outer .r) .counterclockwise]

theorem isSolved_apply_allLayers : 2 ≤ defaultSize ∧ standard.colors.toList.Nodup ∧
    (∀ m ∈ allLayers, m.width < defaultSize) ∧
    ∃ d : Cube defaultSize, standard.apply allLayers = .ok d ∧ d.isSolved = true ∧
      ∃ r : Algorithm, (∀ m ∈ r, ∃ axis, m.letter = .rotation axis) ∧
        standard.apply r = .ok d := by
  have fits : ∀ m ∈ allLayers, m.width < defaultSize := by decide
  refine ⟨by decide, by decide, fits, ?_⟩
  obtain ⟨c, d, made, applied, h⟩ :=
    isSolved_apply_iff (n := defaultSize) (by decide) standard.colors (by decide) allLayers fits
  cases made.symm.trans new_standard
  have uniform : d.isSolved = true := by
    cases applied.symm.trans (apply_eq_of_fits fits)
    decide
  exact ⟨d, applied, uniform, h.1 uniform⟩

end Cube

end Twisty
