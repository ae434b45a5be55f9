import Twisty.Proofs.Carrying
import Twisty.Proofs.Composed
import Twisty.Proofs.Genuine

/-! What no move can change. Moves permute the stickers, they permute the corner pieces
without turning any into its mirror image, and they turn the six centers of an odd cube
as a whole. -/

namespace Twisty

open Corner

namespace Facelets

variable {n : Nat} {pos : 0 < n}

theorem rev_edgeLine (pos : 0 < n) (atStart : Bool) :
    (edgeLine pos atStart).rev = edgeLine pos !atStart := by
  refine Fin.ext ?_
  rw [Fin.val_rev]
  cases atStart <;> simp [edgeLine]
  omega

/-- The line through the center of an odd cube. -/
theorem rev_middle (odd : n % 2 = 1) (lt : n / 2 < n) :
    (⟨n / 2, lt⟩ : Fin n).rev = ⟨n / 2, lt⟩ := by
  refine Fin.ext ?_
  rw [Fin.val_rev]
  show n - (n / 2 + 1) = n / 2
  omega

/-! ## Turns of the whole cube -/

theorem corner_rotate (axis : Axis) (s : Facelets n) :
    ∀ slot ∈ slots, (s.rotate axis).corner pos slot = s.corner pos (slot.map axis.source) := by
  simp only [slots, List.forall_mem_cons]
  cases axis <;>
    simp [corner, cornerSticker, sticker, rotate, PerFace.get, Corner.map, Axis.source,
      Face.above, Face.leftward, rev_edgeLine]

theorem center_rotate (odd : n % 2 = 1) (axis : Axis) (s : Facelets n) (face : Face) :
    (s.rotate axis).center pos face = s.center pos (axis.source face) := by
  have middle := rev_middle odd (by omega)
  cases axis <;> cases face <;>
    simp [center, sticker, rotate, PerFace.get, Axis.source, middle]

/-! ## Turns of the top layers -/

/-- The slot whose sticker comes to a slot. Not all layers turn, so the lower four stay. -/
def topSource (slot : Corner Face) : Corner Face :=
  if .u ∈ slot.toList then slot.map Axis.y.source else slot

theorem corner_turnTop {layers : Nat} (one_le : 1 ≤ layers) (lt : layers < n)
    (s : Facelets n) : ∀ slot ∈ slots,
      (s.turnTop layers).corner pos slot = s.corner pos (topSource slot) := by
  have upper : (edgeLine pos true).val < layers := one_le
  have lower : ¬ (edgeLine pos false).val < layers := by
    show ¬ n - 1 < layers
    omega
  simp only [slots, List.forall_mem_cons]
  simp [corner, cornerSticker, sticker, turnTop, PerFace.get, Corner.map, Axis.source,
    topSource, toList, Face.above, Face.leftward, rev_edgeLine, upper, lower]

theorem center_turnTop (pos : 0 < n) (odd : n % 2 = 1) (layers : Nat) (s : Facelets n) (face : Face) :
    (s.turnTop layers).center pos face =
      s.center pos (if n / 2 < layers then Axis.y.source face else face) := by
  have middle := rev_middle odd (by omega)
  by_cases h : n / 2 < layers <;> cases face <;>
    simp [center, sticker, turnTop, PerFace.get, Axis.source, middle, h]

/-! ## Any moves -/

/-- Pieces are kept by whatever shows at every slot what was at another one before, if
that makes a rearrangement of the slots. -/
theorem rounds_corners_of_source {s t : Facelets n} {source : Corner Face → Corner Face}
    (shows : ∀ slot ∈ slots, t.corner pos slot = s.corner pos (source slot))
    (slots_kept : rounds (slots.map source) = rounds slots) :
    rounds (t.corners pos) = rounds (s.corners pos) := by
  have moved : t.corners pos = (slots.map source).map (s.corner pos) := by
    rw [corners, List.map_map]
    exact List.map_congr_left shows
  rw [moved, corners, rounds_congr (s.corner_turned pos) slots_kept]

structure Rearranged (pos : 0 < n) (s t : Facelets n) : Prop where
  stickers : t.stickers.Perm s.stickers
  pieces : rounds (t.corners pos) = rounds (s.corners pos)
  centers : n % 2 = 1 → ∃ spin : Spin, ∀ face,
    t.center pos face = s.center pos (spin.source face)

namespace Rearranged

variable {s t r : Facelets n}

theorem refl (s : Facelets n) : Rearranged pos s s :=
  ⟨List.Perm.refl _, rfl, fun _ => ⟨.still, fun _ => rfl⟩⟩

theorem trans (h : Rearranged pos s t) (k : Rearranged pos t r) : Rearranged pos s r where
  stickers := k.stickers.trans h.stickers
  pieces := k.pieces.trans h.pieces
  centers odd := by
    obtain ⟨first, hf⟩ := h.centers odd
    obtain ⟨second, hs⟩ := k.centers odd
    exact ⟨first.andThen second, fun face => (hs face).trans (hf _)⟩

theorem rotate (axis : Axis) (s : Facelets n) : Rearranged pos s (s.rotate axis) where
  stickers := (carries_rotate axis).stickers_perm (Place.turned_injective _) s
  pieces := rounds_corners_of_source (corner_rotate axis s) (Spin.quarter axis).rounds_slots
  centers odd := ⟨.quarter axis, center_rotate odd axis s⟩

theorem turnTop {layers : Nat} (one_le : 1 ≤ layers) (lt : layers < n) (s : Facelets n) :
    Rearranged pos s (s.turnTop layers) where
  stickers :=
    (carries_turnTop one_le lt).stickers_perm ((Letter.outer .u).carry_injective layers n) s
  pieces := rounds_corners_of_source (corner_turnTop one_le lt s) (by decide +kernel)
  centers odd := by
    have moved := center_turnTop pos odd layers s
    by_cases h : n / 2 < layers
    · simp only [h, if_true] at moved
      exact ⟨.quarter .y, moved⟩
    · simp only [h, if_false] at moved
      exact ⟨.still, moved⟩

/-- Whatever moves lead to is a rearrangement. -/
theorem of_reaches (h : Reaches s t) : Rearranged pos s t := by
  obtain ⟨f, composed, rfl⟩ := h
  induction composed generalizing s with
  | still => exact refl s
  | rotate axis => exact rotate axis s
  | turnTop one_le lt => exact turnTop one_le lt s
  | comp _ _ ihf ihg => exact ihf.trans ihg

end Rearranged

end Facelets

end Twisty
