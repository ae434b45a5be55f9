import Twisty.Proofs.Pieces

/-! How the corners tell the scheme. Two colors of a scheme are met at a corner unless
they are opposite, so the pieces fix which color is opposite which; and one corner, read
from its first face on, fixes how the cube lies. -/

namespace Twisty

open Corner

namespace Scheme

variable {scheme other : Scheme}

theorem rounds_pieces (scheme : Scheme) :
    rounds scheme.pieces = (rounds slots).map (Cycle.map scheme.get) :=
  rounds_map scheme.get slots

theorem rounds_pieces_spun (scheme : Scheme) (s : Spin) :
    rounds (Scheme.pieces (scheme.spun s)) = rounds scheme.pieces := by
  have split : Scheme.pieces (scheme.spun s) =
      (slots.map (Corner.map s.source)).map (Corner.map scheme.get) := by
    rw [Scheme.pieces, List.map_map]
    exact List.map_congr_left fun slot _ => by simp [Corner.map]
  rw [split, rounds_map, s.rounds_slots, rounds_pieces]

theorem nodup_rounds (distinct : scheme.toList.Nodup) : (scheme.pieces.map round).Nodup := by
  rw [PerFace.nodup_toList_iff] at distinct
  have slots_nodup : (slots.map round).Nodup := by decide +kernel
  rw [pieces, List.map_map]
  refine List.Nodup.map_on ?_ slots_nodup.of_map
  intro c hc e he h
  have hr : c.round = e.round :=
    round_eq_iff.2 (sameRound_of_map distinct (round_eq_iff.1 h))
  exact List.inj_on_of_nodup_map slots_nodup hc he hr

theorem meet_pieces (distinct : scheme.toList.Nodup) {face facing : Face} :
    Meet (rounds scheme.pieces) (scheme.get face) (scheme.get facing) ↔
      facing ≠ face.opposite := by
  rw [rounds_pieces, meet_map (PerFace.nodup_toList_iff.1 distinct), meet_slots]

theorem exists_mem_round_iff {color : Char} :
    (∃ r ∈ rounds scheme.pieces, color ∈ r) ↔ color ∈ scheme.toList := by
  rw [rounds_pieces, PerFace.mem_toList_iff]
  refine ⟨?_, ?_⟩
  · intro h
    obtain ⟨r, hr, hc⟩ := h
    obtain ⟨faces, _, rfl⟩ := Multiset.mem_map.1 hr
    obtain ⟨face, _, hf⟩ := Cycle.mem_map.1 hc
    exact ⟨face, hf⟩
  · intro h
    obtain ⟨face, rfl⟩ := h
    obtain ⟨r, hr, hf, _⟩ := (meet_slots face face).2 face.opposite_ne.symm
    exact ⟨_, Multiset.mem_map_of_mem _ hr, Cycle.mem_map.2 ⟨face, hf, rfl⟩⟩

/-- The color opposite a face is the only one that is never met with the face's own. -/
theorem eq_opposite_of_not_meet (distinct : scheme.toList.Nodup) {face : Face} {color : Char}
    (mem : color ∈ scheme.toList)
    (apart : ¬ Meet (rounds scheme.pieces) (scheme.get face) color) :
    color = scheme.get face.opposite := by
  obtain ⟨facing, rfl⟩ := PerFace.mem_toList_iff.1 mem
  have h : facing = face.opposite := by
    by_contra hne
    exact apart ((meet_pieces distinct).2 hne)
  rw [h]

/-- The pieces and one corner leave no choice for the rest of a scheme. -/
theorem eq_of_rounds_of_urf (hs : scheme.toList.Nodup) (ho : other.toList.Nodup)
    (same : rounds scheme.pieces = rounds other.pieces)
    (front : urf.map scheme.get = urf.map other.get) : scheme = other := by
  have far : ∀ face, scheme.get face = other.get face →
      scheme.get face.opposite = other.get face.opposite := by
    intro face h
    refine eq_opposite_of_not_meet ho ?_ ?_
    · rw [← exists_mem_round_iff, ← same, exists_mem_round_iff, PerFace.mem_toList_iff]
      exact ⟨_, rfl⟩
    · rw [← h, ← same, meet_pieces hs]
      exact not_not.2 rfl
  obtain ⟨hu, hr, hf⟩ := map_urf_eq_iff.1 front
  exact PerFace.ext_get (Face.forall_of_corner far hu hr hf)

/-- URF shows how a cube of a scheme lies. -/
theorem map_urf_spun_iff (distinct : scheme.toList.Nodup) {s t : Spin} :
    urf.map (scheme.spun s).get = urf.map (scheme.spun t).get ↔ s = t := by
  have inj := PerFace.nodup_toList_iff.1 distinct
  refine ⟨fun h => ?_, fun h => by rw [h]⟩
  obtain ⟨hu, hr, hf⟩ := map_urf_eq_iff.1 h
  rw [PerFace.get_spun, PerFace.get_spun] at hu hr hf
  exact Spin.eq_of_corner (inj hu) (inj hr) (inj hf)

/-- A cube of a scheme can be turned as a whole so that any of its pieces, begun
anywhere, is what URF shows. -/
theorem exists_spun_of_round {c : Corner Char} (h : c.round ∈ rounds scheme.pieces) :
    ∃ s : Spin, urf.map (scheme.spun s).get = c := by
  obtain ⟨piece, hp, hr⟩ := mem_rounds.1 h
  obtain ⟨slot, hs, rfl⟩ := List.mem_map.1 hp
  have begun : ∃ e : Corner Face, e.SameRound slot ∧ e.map scheme.get = c := by
    rcases round_eq_iff.1 hr.symm with h | h | h
    · exact ⟨slot, Or.inl rfl, h.symm⟩
    · exact ⟨slot.turned, Or.inr (Or.inl rfl), h.symm⟩
    · exact ⟨slot.turned.turned, Or.inr (Or.inr rfl), h.symm⟩
  obtain ⟨e, he, rfl⟩ := begun
  obtain ⟨s, rfl⟩ := Spin.exists_of_slot slot hs e he
  exact ⟨s, rfl⟩

/-- Two schemes with the same pieces differ only in how the cube lies. -/
theorem exists_eq_spun (hs : scheme.toList.Nodup) (ho : other.toList.Nodup)
    (same : rounds scheme.pieces = rounds other.pieces) :
    ∃ s : Spin, scheme = other.spun s := by
  have front : (urf.map scheme.get).round ∈ rounds other.pieces := by
    rw [← same, mem_rounds]
    exact ⟨_, List.mem_map_of_mem urf_mem_slots, rfl⟩
  obtain ⟨s, h⟩ := exists_spun_of_round front
  refine ⟨s, eq_of_rounds_of_urf hs (PerFace.nodup_spun ho s) ?_ h.symm⟩
  rw [same, rounds_pieces_spun]

/-! ## Looking for opposites -/

theorem meet_eq_true_iff {shown : List (Corner Char)} {color facing : Char} :
    Scheme.meet shown color facing = true ↔ Meet (rounds shown) color facing := by
  simp only [Scheme.meet, Meet, mem_rounds, List.any_eq_true, Bool.and_eq_true,
    decide_eq_true_eq, exists_exists_and_eq_and]
  rfl

theorem findOpposite_eq_ok_iff {colors : List Char} {shown : List (Corner Char)}
    {color facing : Char} :
    findOpposite colors shown color = .ok facing ↔
      (colors.filter fun c => c ≠ color && !Scheme.meet shown color c) = [facing] := by
  rw [findOpposite]
  split
  · rename_i c h
    rw [h]
    simp
  · rename_i hne
    refine ⟨?_, ?_⟩
    · intro h; cases h
    · intro h; exact absurd h (hne facing)

/-- Among the colors of a scheme the search finds the opposite one. -/
theorem findOpposite_eq_ok (distinct : scheme.toList.Nodup) {colors : List Char}
    (nodup : colors.Nodup) (same : ∀ c, c ∈ colors ↔ c ∈ scheme.toList)
    {shown : List (Corner Char)} (pieces : rounds shown = rounds scheme.pieces) (face : Face) :
    findOpposite colors shown (scheme.get face) = .ok (scheme.get face.opposite) := by
  rw [findOpposite_eq_ok_iff, ← List.perm_singleton,
    List.perm_ext_iff_of_nodup (nodup.filter _) (List.nodup_singleton _)]
  have inj := PerFace.nodup_toList_iff.1 distinct
  intro c
  rw [List.mem_filter, List.mem_singleton, same]
  simp only [Bool.and_eq_true, decide_eq_true_eq, Bool.not_eq_true', ← Bool.not_eq_true,
    meet_eq_true_iff, pieces]
  refine ⟨?_, ?_⟩
  · intro h
    exact eq_opposite_of_not_meet distinct h.1 h.2.2
  · intro h
    subst h
    refine ⟨PerFace.mem_toList_iff.2 ⟨_, rfl⟩, ?_, ?_⟩
    · intro h
      exact face.opposite_ne (inj h)
    · rw [meet_pieces distinct]
      exact not_not.2 rfl

end Scheme

end Twisty
