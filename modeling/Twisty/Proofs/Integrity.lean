import Twisty.Proofs.Reachable

/-! What stays whole. Grids are square, six colors cover one face's worth of stickers each,
and the colors and the original of a cube are those it was made with, whatever is done to
it. The rows that a turn of the top layers exchanges are always there. -/

namespace Twisty

namespace Grid

variable {n : Nat}

/-! ## Shape -/

theorem length_of_mem_toRows {g : Grid n} {row : List Char} (h : row ∈ g.toRows) :
    row.length = n := by
  obtain ⟨r, -, rfl⟩ := List.mem_map.1 h
  exact r.length_toList

theorem map_length_toRows (g : Grid n) : g.toRows.map List.length = List.replicate n n := by
  refine List.eq_replicate_iff.2 ⟨by simp, fun k hk => ?_⟩
  obtain ⟨row, hrow, rfl⟩ := List.mem_map.1 hk
  exact length_of_mem_toRows hrow

theorem length_stickers (g : Grid n) : g.stickers.length = n * n := by
  rw [stickers, List.length_flatten, map_length_toRows, List.sum_replicate_nat]

theorem row?_eq_some (g : Grid n) (i : Fin n) : g.row? i = some (g.rows.get i).toList := by
  simp [row?, toRows]
  rfl

theorem row?_eq_none (g : Grid n) {i : Nat} (hi : n ≤ i) : g.row? i = none :=
  List.getElem?_eq_none (by simpa using hi)

/-! ## Rows by number -/

/-- Puts a row in place of the one with a given number, if there is one, and as long. -/
def withRow? (g : Grid n) (i : Nat) (row : List Char) : Option (Grid n) :=
  if i < n then ofRows? n (g.toRows.set i row) else none

/-- Exchanges the rows with a given number of two grids. -/
def swapRow? (i : Nat) (g h : Grid n) : Option (Grid n × Grid n) := do
  let a ← g.row? i
  let b ← h.row? i
  return (← g.withRow? i b, ← h.withRow? i a)

/-- Takes one row from another grid. -/
def withRowOf (i : Fin n) (source g : Grid n) : Grid n :=
  ⟨g.rows.set i (source.rows.get i) i.isLt⟩

@[simp] theorem cell_withRowOf (i k j : Fin n) (source g : Grid n) :
    (withRowOf i source g).cell k j = if k = i then source.cell k j else g.cell k j := by
  by_cases h : k = i
  · subst h
    simp [cell, withRowOf]
    rfl
  · have hne : i.val ≠ k.val := fun e => h (Fin.ext e.symm)
    simp [cell, withRowOf, h, Vector.getElem_set_ne _ _ hne]

theorem withRow?_eq_some (g source : Grid n) (i : Fin n) :
    g.withRow? i (source.rows.get i).toList = some (withRowOf i source g) := by
  have rows : g.toRows.set i (source.rows.get i).toList = (withRowOf i source g).toRows := by
    rw [toRows, toRows, withRowOf, Vector.toList_set, List.map_set]
  rw [withRow?, if_pos i.isLt, rows, ofRows?_toRows]

theorem swapRow?_eq_some (i : Fin n) (g h : Grid n) :
    swapRow? i g h = some (withRowOf i h g, withRowOf i g h) := by
  rw [swapRow?, row?_eq_some, row?_eq_some]
  dsimp only [Option.bind_eq_bind, Option.bind_some]
  rw [withRow?_eq_some, withRow?_eq_some]
  rfl

theorem swapRow?_eq_none {i : Nat} (hi : n ≤ i) (g h : Grid n) : swapRow? i g h = none := by
  rw [swapRow?, row?_eq_none g hi]
  rfl

/-! ## Cells by number -/

/-- Reads every cell of a grid from the one that is named for it by numbers, if there is
one. -/
def remapped? (source : Nat → Nat → Nat × Nat) (g : Grid n) : Option (Grid n) := do
  let rows ← (List.finRange n).mapM fun i : Fin n =>
    (List.finRange n).mapM fun j : Fin n => g.cell? (source i j).1 (source i j).2
  ofRows? n rows

theorem remapped?_eq_some {source : Nat → Nat → Nat × Nat} {g h : Grid n}
    (reads : ∀ i j : Fin n, g.cell? (source i j).1 (source i j).2 = some (h.cell i j)) :
    g.remapped? source = some h := by
  have row : ∀ i : Fin n,
      ((List.finRange n).mapM fun j : Fin n => g.cell? (source i j).1 (source i j).2) =
        some ((List.finRange n).map (h.cell i)) := by
    intro i
    rw [funext (reads i)]
    exact List.mapM_pure
  have rows : ((List.finRange n).mapM fun i : Fin n =>
      (List.finRange n).mapM fun j : Fin n => g.cell? (source i j).1 (source i j).2) =
        some h.toRows := by
    rw [funext row, toRows_eq_map_cell]
    exact List.mapM_pure
  rw [remapped?, rows]
  exact ofRows?_toRows h

theorem cell?_eq_some (g : Grid n) {i j : Nat} (hi : i < n) (hj : j < n) :
    g.cell? i j = some (g.cell ⟨i, hi⟩ ⟨j, hj⟩) :=
  dif_pos ⟨hi, hj⟩

theorem remapped?_clockwise (g : Grid n) :
    g.remapped? (fun i j => (n - 1 - j, i)) = some g.clockwise := by
  refine remapped?_eq_some fun i j => ?_
  have source : (⟨n - 1 - j, by omega⟩ : Fin n) = j.rev := Fin.ext (by simp [Fin.val_rev]; omega)
  rw [cell?_eq_some g (by omega) i.isLt, cell_clockwise, source]

theorem remapped?_counterclockwise (g : Grid n) :
    g.remapped? (fun i j => (j, n - 1 - i)) = some g.counterclockwise := by
  refine remapped?_eq_some fun i j => ?_
  have source : (⟨n - 1 - i, by omega⟩ : Fin n) = i.rev := Fin.ext (by simp [Fin.val_rev]; omega)
  rw [cell?_eq_some g j.isLt (by omega), cell_counterclockwise, source]

end Grid

namespace Facelets

variable {n : Nat}

/-! ## The top layers in place -/

/-- Hands one row on around the sides by three exchanges: F with R, R with B, B with L. -/
def passRow? (s : Facelets n) (i : Nat) : Option (Facelets n) := do
  let (f, r) ← Grid.swapRow? i s.f s.r
  let (r, b) ← Grid.swapRow? i r s.b
  let (b, l) ← Grid.swapRow? i b s.l
  return { s with f := f, r := r, b := b, l := l }

/-- Turns the top layers by exchanging their rows, if they are all there. -/
def turnTopByRows? (layers : Nat) (s : Facelets n) : Option (Facelets n) :=
  (List.range layers).foldlM passRow? { s with u := s.u.clockwise }

theorem turnTopByRows?_succ (layers : Nat) (s : Facelets n) :
    turnTopByRows? (layers + 1) s = turnTopByRows? layers s >>= fun t => t.passRow? layers := by
  rw [turnTopByRows?, List.range_succ, List.foldlM_append]
  simp [turnTopByRows?]

/-- When the rows above one have been handed on, it is still as it was. -/
theorem passRow?_turnTop (i : Fin n) (s : Facelets n) :
    (s.turnTop i).passRow? i = some (s.turnTop (i + 1)) := by
  simp only [passRow?, Grid.swapRow?_eq_some, Option.bind_eq_bind, Option.bind_some]
  refine congrArg some (ext_sticker fun face k j => ?_)
  by_cases h : k = i
  · subst h
    cases face <;> simp [sticker, PerFace.get, turnTop]
  · have above : k.val < i.val + 1 ↔ k.val < i.val := by omega
    cases face <;> simp [sticker, PerFace.get, turnTop, h, above]

theorem turnTopByRows?_eq (layers : Nat) (s : Facelets n) :
    turnTopByRows? layers s = if layers ≤ n then some (s.turnTop layers) else none := by
  induction layers with
  | zero =>
    refine congrArg some (ext_sticker fun face i j => ?_)
    cases face <;> simp [sticker, PerFace.get, turnTop]
  | succ layers ih =>
    rw [turnTopByRows?_succ, ih]
    rcases Nat.lt_trichotomy layers n with h | h | h
    · rw [if_pos (Nat.le_of_lt h), if_pos (Nat.succ_le_of_lt h)]
      exact passRow?_turnTop ⟨layers, h⟩ s
    · rw [if_pos (Nat.le_of_eq h), if_neg (by omega)]
      show passRow? _ layers = none
      rw [passRow?, Grid.swapRow?_eq_none (Nat.le_of_eq h.symm)]
      rfl
    · rw [if_neg (by omega), if_neg (by omega)]
      rfl

/-! ## Colors -/

/-- Moves take no sticker away and bring none. -/
theorem Rearranged.count_stickers {pos : 0 < n} {six : Scheme} {t : Facelets n}
    (h : Rearranged pos (solved n six) t) (distinct : six.toList.Nodup) (color : Char) :
    t.stickers.count color = if color ∈ six.toList then n * n else 0 := by
  rw [h.stickers.count_eq, stickers_solved, count_flatMap_replicate]
  split
  · rename_i hc
    rw [List.count_eq_one_of_mem distinct hc, Nat.mul_one]
  · rename_i hc
    rw [List.count_eq_zero_of_not_mem hc, Nat.mul_zero]

end Facelets

namespace Cube

open Facelets

variable {n : Nat}

/-! ## Runs of operations -/

/-- A cube made with six colors that is in order: its faces are square, its rows and cells
are found by all numbers that turns ask for, each color covers one face's worth of
stickers, and what the cube was made with and as has not changed. -/
structure Intact (six : PerFace Char) (c : Cube n) : Prop where
  square : ∀ face, (c.state.get face).toRows.length = n ∧
    (∀ row ∈ (c.state.get face).toRows, row.length = n) ∧
    (c.state.get face).stickers.length = n * n
  rows : ∀ layers, layers < n →
    c.state.turnTopByRows? layers = some (c.state.turnTop layers)
  cells : ∀ face,
    (c.state.get face).remapped? (fun i j => (n - 1 - j, i)) =
      some (c.state.get face).clockwise ∧
    (c.state.get face).remapped? (fun i j => (j, n - 1 - i)) =
      some (c.state.get face).counterclockwise
  balanced : ∀ color, c.state.stickers.count color = if color ∈ six.toList then n * n else 0
  colors : c.colors = six
  original : c.original = .solved n six

section Operations

variable {G : Type} [Source G] [Hashable (Facelets n)]

/-- What a run keeps, of a cube that was new at its beginning. -/
theorem IsNew.performAll {c : Cube n} (fresh : c.IsNew) (ops : List (Operation G)) :
    (c.performAll ops).colors = c.colors ∧ (c.performAll ops).original = c.original := by
  have start : Reaches c.original c.state := by
    rw [fresh.state, fresh.original]
    exact Reaches.refl _
  obtain ⟨colors, original, -⟩ := reaches_performAll start ops
  exact ⟨colors, original⟩

theorem IsNew.intact_after {c : Cube n} (fresh : c.IsNew) (ops : List (Operation G)) :
    (c.performAll ops).Intact c.colors where
  square face := ⟨Grid.length_toRows _, fun _ => Grid.length_of_mem_toRows,
    Grid.length_stickers _⟩
  rows layers lt := by rw [turnTopByRows?_eq, if_pos (Nat.le_of_lt lt)]
  cells face := ⟨Grid.remapped?_clockwise _, Grid.remapped?_counterclockwise _⟩
  balanced := (rearranged_performAll (Nat.zero_lt_of_lt c.two_le) fresh ops).count_stickers
    c.distinct
  colors := (fresh.performAll ops).1
  original := (fresh.performAll ops).2.trans fresh.original

theorem IsNew.reset_performAll {c : Cube n} (fresh : c.IsNew) (ops : List (Operation G)) :
    (c.performAll ops).reset = c := by
  obtain ⟨colors, original⟩ := fresh.performAll ops
  generalize c.performAll ops = d at colors original
  obtain ⟨six, state, first, two_le, distinct⟩ := c
  obtain ⟨six', state', first', two_le', distinct'⟩ := d
  cases colors
  cases original
  have same : state = first := fresh.state.trans fresh.original.symm
  rw [same]
  rfl

/-- Whatever is done to a new cube, and whether or not it can be done, the cube stays in
order, and a reset makes it new again. Scrambles may draw from any source, and any hash may
tell states apart. -/
theorem intact_performAll (two_le : 2 ≤ n) (six : PerFace Char) (distinct : six.toList.Nodup) :
    ∃ c : Cube n, Cube.new n (String.ofList six.toList) = .ok c ∧
      ∀ ops : List (Operation G), (c.performAll ops).Intact six ∧ (c.performAll ops).reset = c := by
  have fresh : IsNew ⟨six, .solved n six, .solved n six, two_le, distinct⟩ := ⟨rfl, rfl⟩
  refine ⟨⟨six, .solved n six, .solved n six, two_le, distinct⟩,
    new_eq_ok_iff.2 ⟨(String.toList_ofList).symm, fresh⟩, fun ops => ?_⟩
  exact ⟨fresh.intact_after ops, fresh.reset_performAll ops⟩

end Operations

/-- Some operations here cannot be done: a turn of three layers, and a text that is no
algorithm. -/
theorem intact_after_failures : 2 ≤ defaultSize ∧ standard.colors.toList.Nodup ∧
    (standard.performAll (G := Generator) [.turnTop 3, .turnTop 2, .applyText "R (U",
      .scramble ⟨42⟩ (some 5), .rotate .z]).Intact standard.colors ∧
    (standard.performAll (G := Generator) [.turnTop 3, .turnTop 2, .applyText "R (U",
      .scramble ⟨42⟩ (some 5), .rotate .z]).reset = standard := by
  refine ⟨by decide, by decide, ?_⟩
  obtain ⟨c, made, kept⟩ :=
    intact_performAll (n := defaultSize) (G := Generator) (by decide) standard.colors (by decide)
  cases made.symm.trans new_standard
  exact kept _

end Cube

end Twisty
