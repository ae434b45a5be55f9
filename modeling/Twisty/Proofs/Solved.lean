import Twisty.Proofs.Composed
import Twisty.Proofs.Genuine

/-! Solved cubes: what a cube shows whose faces have one color each, and what becomes of
it when it is turned as a whole. -/

namespace Twisty

open Corner

namespace Grid

variable {n : Nat}

theorem stickers_filled (color : Char) :
    (filled n color).stickers = List.replicate (n * n) color := by
  simp [stickers, toRows, filled, List.flatten_replicate_replicate]

theorem isUniform_filled (color : Char) : (filled n color).isUniform = true := by
  rw [isUniform_iff, stickers_filled]
  intro c hc e he
  rw [List.eq_of_mem_replicate hc, List.eq_of_mem_replicate he]

/-- A uniform grid is filled with the sticker in its first corner. -/
theorem eq_filled {g : Grid n} (pos : 0 < n) (h : g.isUniform = true) :
    g = filled n (g.cell ⟨0, pos⟩ ⟨0, pos⟩) := by
  refine ext_cell fun i j => ?_
  rw [cell_filled]
  exact (isUniform_iff g).1 h _ (mem_stickers_iff.2 ⟨i, j, rfl⟩) _
    (mem_stickers_iff.2 ⟨_, _, rfl⟩)

end Grid

namespace Facelets

variable {n : Nat} {pos : 0 < n} {six : Scheme}

/-! ## What they show -/

theorem stickers_solved (six : Scheme) :
    (solved n six).stickers = six.toList.flatMap (List.replicate (n * n)) := by
  simp only [stickers, solved, PerFace.toList_map, List.flatMap_map, Grid.stickers_filled]

theorem mem_stickers_solved (pos : 0 < n) {color : Char} :
    color ∈ (solved n six).stickers ↔ color ∈ six.toList := by
  have some_sticker : n * n ≠ 0 := Nat.mul_ne_zero pos.ne' pos.ne'
  simp [stickers_solved, List.mem_flatMap, List.mem_replicate, some_sticker]

theorem count_flatMap_replicate (k : Nat) (colors : List Char) (color : Char) :
    (colors.flatMap (List.replicate k)).count color = k * colors.count color := by
  induction colors with
  | nil => simp
  | cons c rest ih =>
    rw [List.flatMap_cons, List.count_append, ih, List.count_replicate, List.count_cons]
    by_cases h : c = color
    · simp [h, Nat.mul_add, Nat.add_comm]
    · simp [h]

theorem balanced_solved (pos : 0 < n) (distinct : six.toList.Nodup) :
    (solved n six).Balanced := by
  refine ⟨?_, ?_⟩
  · have same : (solved n six).stickers.toFinset = six.toList.toFinset := by
      ext color
      rw [List.mem_toFinset, List.mem_toFinset, mem_stickers_solved pos]
    rw [same, List.toFinset_card_of_nodup distinct]
    rfl
  · intro color hc
    rw [mem_stickers_solved pos] at hc
    rw [stickers_solved, count_flatMap_replicate, List.count_eq_one_of_mem distinct hc,
      Nat.mul_one]

theorem corners_solved (six : Scheme) : (solved n six).corners pos = six.pieces := by
  refine List.map_congr_left fun slot _ => ?_
  simp only [corner, cornerSticker, sticker_solved]
  rfl

theorem center_solved (six : Scheme) (face : Face) :
    (solved n six).center pos face = six.get face := sticker_solved six face _ _

theorem isSolved_iff (pos : 0 < n) (s : Facelets n) :
    s.isSolved = true ↔ ∃ shown : Scheme, s = solved n shown := by
  rw [isSolved, List.all_eq_true]
  refine ⟨?_, ?_⟩
  · intro h
    refine ⟨s.map fun g => g.cell ⟨0, pos⟩ ⟨0, pos⟩, PerFace.ext_get fun face => ?_⟩
    rw [solved, PerFace.get_map, PerFace.get_map]
    exact Grid.eq_filled pos (h _ (PerFace.mem_toList_iff.2 ⟨face, rfl⟩))
  · rintro ⟨shown, rfl⟩ g hg
    obtain ⟨face, rfl⟩ := PerFace.mem_toList_iff.1 hg
    rw [solved, PerFace.get_map]
    exact Grid.isUniform_filled _

theorem corner_solved (six : Scheme) (slot : Corner Face) :
    (solved n six).corner pos slot = slot.map six.get := by
  simp only [corner, cornerSticker, sticker_solved]
  rfl

/-! ## Turning them -/

theorem rotate_solved (axis : Axis) (six : Scheme) :
    (solved n six).rotate axis = solved n (six.spun (.quarter axis)) := by
  refine ext_sticker fun face i j => ?_
  rw [sticker_solved, PerFace.get_spun]
  cases axis <;> cases face <;>
    simp [sticker, rotate, solved, PerFace.get, PerFace.map, Spin.quarter, Axis.source]

theorem exists_act_solved {f : Facelets n → Facelets n}
    (keeps : ∀ six, ∃ shown, f (solved n six) = solved n shown) (amount : Amount)
    (six : Scheme) : ∃ shown, amount.act f (solved n six) = solved n shown := by
  obtain ⟨once, h1⟩ := keeps six
  obtain ⟨twice, h2⟩ := keeps once
  cases amount with
  | clockwise => exact ⟨once, h1⟩
  | half => exact ⟨twice, by rw [Amount.act, h1, h2]⟩
  | counterclockwise =>
    obtain ⟨thrice, h3⟩ := keeps twice
    exact ⟨thrice, by rw [Amount.act, h1, h2, h3]⟩

/-- Turns of the whole cube leave every face with one color. -/
theorem exists_makeAll_solved {r : List Move} (turns : ∀ m ∈ r, ∃ axis, m.letter = .rotation axis)
    (six : Scheme) : ∃ shown, makeAll r (solved n six) = solved n shown := by
  induction r generalizing six with
  | nil => exact ⟨six, rfl⟩
  | cons m rest ih =>
    obtain ⟨⟨axis, hm⟩, hrest⟩ := List.forall_mem_cons.1 turns
    have keeps : ∀ six : Scheme, ∃ shown,
        quarterTurn m.letter m.width (solved n six) = solved n shown := by
      intro six
      rw [hm]
      exact ⟨_, rotate_solved axis six⟩
    obtain ⟨shown, h⟩ := exists_act_solved keeps m.amount six
    obtain ⟨last, hl⟩ := ih hrest shown
    refine ⟨last, ?_⟩
    rw [makeAll_cons, make, h, hl]

/-- Quarter turns as moves. -/
def turnMoves (turns : List Axis) : Algorithm :=
  turns.map fun axis => Move.single (.rotation axis) .clockwise

theorem rotation_of_mem_turnMoves (turns : List Axis) :
    ∀ m ∈ turnMoves turns, ∃ axis, m.letter = .rotation axis := by
  intro m hm
  obtain ⟨axis, -, rfl⟩ := List.mem_map.1 hm
  exact ⟨axis, rfl⟩

theorem makeAll_turnMoves (turns : List Axis) (six : Scheme) :
    makeAll (turnMoves turns) (solved n six) = solved n (six.spun (.ofTurns turns)) := by
  induction turns generalizing six with
  | nil =>
    rw [Spin.ofTurns, PerFace.spun_still]
    rfl
  | cons axis rest ih =>
    have first : make (.single (.rotation axis) .clockwise) (solved n six) =
        solved n (six.spun (.quarter axis)) := rotate_solved axis six
    rw [Spin.ofTurns, PerFace.spun_andThen, ← ih, ← first]
    rfl

end Facelets

end Twisty
