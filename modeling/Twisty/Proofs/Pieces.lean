import Twisty.Layout.Scheme
import Twisty.Proofs.Spin
import Mathlib.Data.List.Cycle
import Mathlib.Data.Multiset.MapFold

/-! Corner pieces. A piece is a round of three colors that begins nowhere, and what
matters of several pieces is how often each round occurs. The pieces of a scheme tell
the scheme, up to how the cube lies. -/

namespace Twisty

namespace Corner

variable {α β : Type}

/-- A corner without the place where its round begins. -/
def round (c : Corner α) : Cycle α := (c.toList : Cycle α)

theorem toList_injective {c e : Corner α} (h : c.toList = e.toList) : c = e := by
  cases c; cases e
  cases h
  rfl

theorem round_turned (c : Corner α) : c.turned.round = c.round :=
  Cycle.coe_eq_coe.2 (List.IsRotated.symm ⟨1, rfl⟩)

theorem round_eq_iff {c e : Corner α} : c.round = e.round ↔ c.SameRound e := by
  refine ⟨?_, ?_⟩
  · intro h
    obtain ⟨k, hk, hr⟩ := List.isRotated_iff_mod.1 (Cycle.coe_eq_coe.1 h.symm)
    have hk : k ≤ 3 := hk
    rcases (show k = 0 ∨ k = 1 ∨ k = 2 ∨ k = 3 by omega) with hk | hk | hk | hk <;> subst hk
    · exact Or.inl (toList_injective hr.symm)
    · exact Or.inr (Or.inl (toList_injective hr.symm))
    · exact Or.inr (Or.inr (toList_injective hr.symm))
    · exact Or.inl (toList_injective (hr.symm.trans (List.rotate_length e.toList)))
  · intro h
    rcases h with h | h | h
    · rw [h]
    · rw [h, round_turned]
    · rw [h, round_turned, round_turned]

theorem sameRound_of_map {g : α → β} (inj : Function.Injective g) {c e : Corner α}
    (h : (c.map g).SameRound (e.map g)) : c.SameRound e := by
  obtain ⟨i, j, k⟩ := c
  obtain ⟨x, y, z⟩ := e
  simpa [SameRound, map, turned, inj.eq_iff] using h

/-- The rounds of several corners, in no order. -/
def rounds (corners : List (Corner α)) : Multiset (Cycle α) := (corners.map round : List _)

theorem rounds_map (g : α → β) (corners : List (Corner α)) :
    rounds (corners.map (Corner.map g)) = (rounds corners).map (Cycle.map g) := by
  rw [rounds, rounds, Multiset.map_coe, List.map_map, List.map_map]
  rfl

theorem mem_rounds {corners : List (Corner α)} {r : Cycle α} :
    r ∈ rounds corners ↔ ∃ c ∈ corners, c.round = r := by
  simp [rounds]

/-- Corners with the same rounds keep them in common when each corner is replaced, if
that does not depend on where a round begins. -/
theorem rounds_congr {F : Corner α → Corner β} (turns : ∀ c, F c.turned = (F c).turned)
    {corners others : List (Corner α)} (same : rounds corners = rounds others) :
    rounds (corners.map F) = rounds (others.map F) := by
  have factors : (round ∘ F).FactorsThrough round := by
    intro c e h
    show (F c).round = (F e).round
    rcases round_eq_iff.1 h with h | h | h
    · rw [h]
    · rw [h, turns, round_turned]
    · rw [h, turns, turns, round_turned, round_turned]
  have : Nonempty (Cycle β) := ⟨Cycle.nil⟩
  obtain ⟨onRounds, hF⟩ := (Function.factorsThrough_iff _).1 factors
  have through : ∀ list : List (Corner α), rounds (list.map F) = (rounds list).map onRounds := by
    intro list
    rw [rounds, rounds, Multiset.map_coe, List.map_map, List.map_map, hF]
  rw [through, through, same]

/-- Whether two things are met in one round. -/
def Meet (all : Multiset (Cycle α)) (x y : α) : Prop := ∃ r ∈ all, x ∈ r ∧ y ∈ r

instance [DecidableEq α] (all : Multiset (Cycle α)) (x y : α) : Decidable (Meet all x y) :=
  Multiset.decidableExistsMultiset

theorem meet_map {g : α → β} (inj : Function.Injective g) {all : Multiset (Cycle α)} {x y : α} :
    Meet (all.map (Cycle.map g)) (g x) (g y) ↔ Meet all x y := by
  simp only [Meet, Multiset.mem_map, exists_exists_and_eq_and, Cycle.mem_map, inj.eq_iff,
    exists_eq_right]

/-- The slot from which a scheme is read. -/
def urf : Corner Face := ⟨.u, .r, .f⟩

theorem urf_mem_slots : urf ∈ slots := List.mem_cons_self

theorem map_urf_eq_iff {g h : Face → α} :
    urf.map g = urf.map h ↔ g .u = h .u ∧ g .r = h .r ∧ g .f = h .f := by
  simp [urf, map]

/-- Faces are met at a corner unless they are opposite. -/
theorem meet_slots : ∀ face other : Face,
    Meet (rounds slots) face other ↔ other ≠ face.opposite := by
  decide +kernel

end Corner

open Corner

namespace Spin

/-- However a cube lies, its slots are the same. -/
theorem rounds_slots (s : Spin) : rounds (slots.map (Corner.map s.source)) = rounds slots := by
  have quarter : ∀ axis : Axis, rounds (slots.map (Corner.map axis.source)) =
      rounds slots := by
    intro axis
    cases axis <;> decide +kernel
  obtain ⟨turns, rfl⟩ := s.exists_turns
  induction turns with
  | nil => rfl
  | cons axis rest ih =>
    have split : slots.map (Corner.map (ofTurns (axis :: rest)).source) =
        (slots.map (Corner.map (ofTurns rest).source)).map (Corner.map axis.source) := by
      rw [List.map_map]
      rfl
    rw [split, rounds_map, ih, ← rounds_map, quarter]

/-- A cube can be turned so that any slot, begun anywhere, comes to URF. -/
theorem exists_of_slot : ∀ slot ∈ slots, ∀ c : Corner Face, c.SameRound slot →
    ∃ s : Spin, urf.map s.source = c := by
  have listed : ∀ slot ∈ slots, ∀ c ∈ [slot, slot.turned, slot.turned.turned],
      ∃ s ∈ all, urf.map s.source = c := by
    decide +kernel
  intro slot hs c hc
  have hm : c ∈ [slot, slot.turned, slot.turned.turned] := by
    rcases hc with h | h | h <;> simp [h]
  obtain ⟨s, _, h⟩ := listed slot hs c hm
  exact ⟨s, h⟩

end Spin

namespace PerFace

variable {α : Type}

theorem nodup_toList_iff {p : PerFace α} : p.toList.Nodup ↔ Function.Injective p.get := by
  rw [toList_eq_map_get]
  refine ⟨?_, ?_⟩
  · intro h face other e
    exact List.inj_on_of_nodup_map h (Face.mem_all face) (Face.mem_all other) e
  · intro inj
    exact (show Face.all.Nodup by decide).map inj

/-- What each face holds after the cube is turned as a whole. -/
def spun (p : PerFace α) (s : Spin) : PerFace α := .ofFn fun face => p.get (s.source face)

@[simp] theorem get_spun (p : PerFace α) (s : Spin) (face : Face) :
    (p.spun s).get face = p.get (s.source face) := get_ofFn _ _

theorem spun_still (p : PerFace α) : p.spun .still = p := ofFn_get p

theorem spun_andThen (p : PerFace α) (s t : Spin) : p.spun (s.andThen t) = (p.spun s).spun t :=
  ext_get fun face => by rw [get_spun, get_spun, get_spun]; rfl

theorem nodup_spun {p : PerFace α} (distinct : p.toList.Nodup) (s : Spin) :
    (p.spun s).toList.Nodup := by
  rw [nodup_toList_iff] at distinct ⊢
  intro face other h
  rw [get_spun, get_spun] at h
  exact s.source_injective (distinct h)

theorem mem_toList_spun {p : PerFace α} {s : Spin} {x : α} :
    x ∈ (p.spun s).toList ↔ x ∈ p.toList := by
  rw [mem_toList_iff, mem_toList_iff]
  refine ⟨?_, ?_⟩
  · intro h
    obtain ⟨face, rfl⟩ := h
    exact ⟨s.source face, (get_spun p s face).symm⟩
  · intro h
    obtain ⟨face, rfl⟩ := h
    obtain ⟨from_, rfl⟩ := s.source_surjective face
    exact ⟨from_, get_spun p s from_⟩

end PerFace

end Twisty
