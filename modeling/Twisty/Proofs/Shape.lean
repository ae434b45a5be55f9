import Twisty.Layout.Shape
import Mathlib.Data.Finset.Card
import Mathlib.Data.Fintype.Defs

/-! What the shape of a layout promises. A layout that passes is that of some stickers on
six square faces, and everything that is read from these lies within the layout. -/

namespace Twisty

/-- What a check passes on to the next one. -/
theorem ok_of_bind {ε α β : Type} {check : Except ε α} {next : α → Except ε β} {b : β}
    (h : check >>= next = .ok b) : ∃ a, check = .ok a ∧ next a = .ok b := by
  cases check with
  | error e => cases h
  | ok a => exact ⟨a, rfl, h⟩

theorem Palette.nodup_ofStickers (stickers : List Char) : (ofStickers stickers).Nodup :=
  (pairwise_ofStickers stickers).imp fun h => Char.ne_of_lt h

theorem Palette.length_ofStickers (stickers : List Char) :
    (ofStickers stickers).length = stickers.toFinset.card := by
  rw [← List.toFinset_card_of_nodup (nodup_ofStickers stickers)]
  congr 1
  ext c
  rw [List.mem_toFinset, List.mem_toFinset, mem_ofStickers]

namespace Facelets

variable {n : Nat}

/-- There are six colors, each on one face's worth of stickers. -/
def Balanced (s : Facelets n) : Prop :=
  s.stickers.toFinset.card = 6 ∧ ∀ c ∈ s.stickers, s.stickers.count c = n * n

theorem checkColors_eq_ok_iff (s : Facelets n) : s.checkColors = .ok () ↔ s.Balanced := by
  rw [checkColors, Balanced, ← Palette.length_ofStickers]
  by_cases six : (Palette.ofStickers s.stickers).length = 6
  · simp only [six, if_true, true_and]
    cases odd : (Palette.ofStickers s.stickers).find? fun c => s.stickers.count c ≠ n * n with
    | some c =>
      simp only [reduceCtorEq, false_iff]
      intro all
      have hc := List.mem_of_find?_eq_some odd
      have hne := List.find?_some odd
      rw [decide_eq_true_eq] at hne
      exact hne (all c (Palette.mem_ofStickers.1 hc))
    | none =>
      simp only [true_iff]
      intro c hc
      have h := List.find?_eq_none.1 odd c (Palette.mem_ofStickers.2 hc)
      simpa using h
  · simp only [six, if_false, false_and, reduceCtorEq]

theorem repeatedCenter?_eq_none_iff (s : Facelets n) (pos : 0 < n) :
    s.repeatedCenter? pos = none ↔ (n % 2 = 1 → Function.Injective (s.center pos)) := by
  rw [repeatedCenter?]
  by_cases odd : n % 2 = 1
  · rw [if_pos odd, Palette.firstRepeat?_eq_none_iff]
    refine ⟨?_, ?_⟩
    · intro h _ face other e
      exact List.inj_on_of_nodup_map h (Face.mem_all face) (Face.mem_all other) e
    · intro inj
      exact (show Face.all.Nodup by decide).map (inj odd)
  · rw [if_neg odd]
    exact ⟨fun _ h => absurd h odd, fun _ => rfl⟩

@[simp] theorem get_toLayout (s : Facelets n) (face : Face) :
    s.toLayout.get face = some (s.get face).toRows := PerFace.get_map _ _ _

end Facelets

namespace Layout

variable {size : Nat}

theorem grid_eq_ok_iff {layout : Layout} {face : Face} {g : Grid size} :
    layout.grid size face = .ok g ↔ layout.get face = some g.toRows := by
  rw [grid]
  cases layout.get face with
  | none => simp
  | some rows =>
    simp only [Option.some.injEq]
    refine ⟨?_, ?_⟩
    · intro h
      split at h
      · cases h
      · rename_i k hk
        cases h
        exact (Grid.toRows_ofRows? hk).symm
    · rintro rfl
      rw [Grid.ofRows?_toRows]

/-- Layouts are taken apart and put together without loss. -/
theorem assemble_eq_ok_iff {layout : Layout} {s : Facelets size} :
    layout.assemble size = .ok s ↔ layout = s.toLayout := by
  refine ⟨?_, ?_⟩
  · intro h
    unfold assemble at h
    obtain ⟨u, hu, h⟩ := ok_of_bind h
    obtain ⟨f, hf, h⟩ := ok_of_bind h
    obtain ⟨r, hr, h⟩ := ok_of_bind h
    obtain ⟨b, hb, h⟩ := ok_of_bind h
    obtain ⟨l, hl, h⟩ := ok_of_bind h
    obtain ⟨d, hd, h⟩ := ok_of_bind h
    cases h
    refine PerFace.ext_get fun face => ?_
    rw [Facelets.get_toLayout, ← grid_eq_ok_iff]
    cases face with
    | u => exact hu
    | f => exact hf
    | r => exact hr
    | b => exact hb
    | l => exact hl
    | d => exact hd
  · rintro rfl
    have all : ∀ face, s.toLayout.grid size face = .ok (s.get face) :=
      fun face => grid_eq_ok_iff.2 (s.get_toLayout face)
    simp only [assemble, all]
    rfl

theorem toLayout_injective : Function.Injective (Facelets.toLayout (n := size)) := by
  intro s t h
  have hs : s.toLayout.assemble size = .ok s := assemble_eq_ok_iff.2 rfl
  rw [h, assemble_eq_ok_iff.2 rfl] at hs
  exact (Except.ok.inj hs).symm

/-- The sticker in a row and column of a face, if there is one. -/
def sticker? (layout : Layout) (face : Face) (row col : Nat) : Option Char := do
  let rows ← layout.get face
  let cells ← rows[row]?
  cells[col]?

theorem sticker?_toLayout (s : Facelets size) (face : Face) (i j : Fin size) :
    s.toLayout.sticker? face i j = some (s.sticker face i j) := by
  rw [sticker?, Facelets.get_toLayout]
  simp [Grid.toRows, Facelets.sticker, Grid.cell]

theorem shape_eq_ok_iff {layout : Layout} {c : Shaped size} :
    layout.shape size = .ok c ↔
      layout = c.state.toLayout ∧ c.state.Balanced ∧
        (size % 2 = 1 → Function.Injective (c.state.center c.pos)) := by
  obtain ⟨s, two_le⟩ := c
  rw [shape, dif_pos two_le, ← assemble_eq_ok_iff]
  cases assembled : layout.assemble size with
  | error fault => simp
  | ok t =>
    have pos : 0 < size := Nat.lt_of_lt_of_le (by decide) two_le
    have centers := t.repeatedCenter?_eq_none_iff pos
    have colors := t.checkColors_eq_ok_iff
    refine ⟨?_, ?_⟩
    · intro h
      dsimp only at h
      cases hc : t.repeatedCenter? pos with
      | some color => rw [hc] at h; cases h
      | none =>
        rw [hc] at h
        cases hk : t.checkColors with
        | error fault => rw [hk] at h; cases h
        | ok _ =>
          rw [hk] at h
          cases h
          exact ⟨rfl, colors.1 hk, centers.1 hc⟩
    · intro h
      obtain ⟨e, balanced, distinct⟩ := h
      cases e
      dsimp only
      rw [centers.2 distinct, colors.2 balanced]
      rfl

end Layout

end Twisty
