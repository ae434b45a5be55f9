import Twisty.Proofs.Integrity
import Twisty.Proofs.Parallel
import Twisty.Proofs.Unfolding
import Mathlib.Dynamics.PeriodicPts.Defs

/-! Grids row after row. The stickers of a grid in one list, each row behind the one above
it, are the whole grid: rows are cut out of the list again, and a cell is found in it by a
number that follows from row and column. To turn a grid is to read this list in another
order. Half a turn reads it backwards. -/

namespace Twisty.Grid

variable {n : Nat}

/-! ## Pieces of one width -/

/-- The pieces of one width that a list is cut into. What is left over at the end is in none
of them. -/
def chunks (width : Nat) (cs : List Char) : List (List Char) :=
  (List.range (cs.length / width)).map fun k => (cs.drop (k * width)).take width

theorem take_drop_flatten {rows : List (List Char)} {width : Nat}
    (same : ∀ row ∈ rows, row.length = width) {k : Nat} {row : List Char}
    (found : rows[k]? = some row) : (rows.flatten.drop (k * width)).take width = row := by
  induction rows generalizing k with
  | nil => cases found
  | cons first rest ih =>
    obtain ⟨length, others⟩ := List.forall_mem_cons.1 same
    rw [List.flatten_cons]
    cases k with
    | zero =>
      cases found
      rw [Nat.zero_mul, List.drop_zero]
      exact List.take_left' length
    | succ k =>
      have further : (k + 1) * width = first.length + k * width := by rw [length]; ring
      rw [further, List.drop_length_add_append]
      exact ih others found

theorem chunks_flatten {rows : List (List Char)} {width : Nat} (pos : 0 < width)
    (same : ∀ row ∈ rows, row.length = width) : chunks width rows.flatten = rows := by
  have lengths : rows.map List.length = List.replicate rows.length width :=
    List.eq_replicate_iff.2 ⟨by simp, by simpa using same⟩
  have count : rows.flatten.length / width = rows.length := by
    rw [List.length_flatten, lengths, List.sum_replicate_nat, Nat.mul_div_cancel _ pos]
  rw [chunks, count]
  refine List.ext_getElem (by simp) fun k _ lt => ?_
  rw [List.getElem_map, List.getElem_range]
  exact take_drop_flatten same (List.getElem?_eq_getElem lt)

/-- A grid without rows is cut in pieces of one, of which there are none. -/
theorem chunks_stickers (g : Grid n) : chunks (max n 1) g.stickers = g.toRows := by
  cases n with
  | zero =>
    have nothing : g.toRows = [] := List.length_eq_zero_iff.1 g.length_toRows
    rw [stickers, nothing]
    rfl
  | succ n =>
    rw [Nat.max_eq_left (Nat.succ_pos n)]
    exact chunks_flatten (Nat.succ_pos n) fun _ => length_of_mem_toRows

/-! ## Access by number -/

theorem cell?_eq_bind_row? (g : Grid n) (i j : Nat) :
    g.cell? i j = (g.row? i).bind fun row => row[j]? := by
  by_cases hi : i < n
  · rw [g.row?_eq_some ⟨i, hi⟩, Option.bind_some]
    by_cases hj : j < n
    · rw [g.cell?_eq_some hi hj]
      exact (g.getElem?_get_rows ⟨i, hi⟩ ⟨j, hj⟩).symm
    · rw [cell?, dif_neg fun h => hj h.2]
      exact (List.getElem?_eq_none (by simpa using hj)).symm
  · rw [g.row?_eq_none (Nat.le_of_not_lt hi), cell?, dif_neg fun h => hi h.1]
    rfl

/-- A cell in a column of the grid has its number in the list, if there is such a row. -/
theorem getElem?_stickers (g : Grid n) (i : Nat) {j : Nat} (lt : j < n) :
    g.stickers[i * n + j]? = g.cell? i j := by
  have rows := getElem?_flatMap_of_length (f := id) (fun _ => length_of_mem_toRows (g := g)) i lt
  rw [List.flatMap_id] at rows
  rw [stickers, rows, cell?_eq_bind_row?]
  rfl

/-- All ways to read a grid find the same rows. -/
structure HasRows (g : Grid n) (rows : List (List Char)) : Prop where
  toRows : g.toRows = rows
  stickers : g.stickers = rows.flatten
  chunks : Grid.chunks (max n 1) g.stickers = rows
  row : ∀ i, g.row? i = rows[i]?
  slice : ∀ i row, rows[i]? = some row → (g.stickers.drop (i * n)).take n = row
  cell : ∀ i j, g.cell? i j = rows[i]?.bind fun row => row[j]?
  sticker : ∀ i, ∀ j : Fin n, g.stickers[i * n + j]? = rows[i]?.bind fun row => row[j.val]?

theorem hasRows_toRows (g : Grid n) : g.HasRows g.toRows where
  toRows := rfl
  stickers := rfl
  chunks := g.chunks_stickers
  row _ := rfl
  slice _ _ found := take_drop_flatten (fun _ => length_of_mem_toRows) found
  cell := g.cell?_eq_bind_row?
  sticker i j := (g.getElem?_stickers i j.isLt).trans (g.cell?_eq_bind_row? i j)

/-- Rows make a grid just if each is as long as there are rows. They are then found in it by
every way to read it. Any grid is made again from its rows. -/
theorem ofRows?_reads_back :
    (∀ rows : List (List Char),
      ((∃ g, ofRows? rows.length rows = some g) ↔ ∀ row ∈ rows, row.length = rows.length) ∧
      ∀ g, ofRows? rows.length rows = some g → g.HasRows rows) ∧
    ∀ (n : Nat) (g : Grid n), g.toRows.length = n ∧ ofRows? n g.toRows = some g := by
  refine ⟨fun rows => ⟨?_, fun g made => ?_⟩, fun n g => ⟨g.length_toRows, g.ofRows?_toRows⟩⟩
  · rw [← Option.isSome_iff_exists, ofRows?_isSome_iff]
    exact and_iff_right rfl
  · have rows := g.hasRows_toRows
    rwa [toRows_ofRows? made] at rows

/-- Without any rows there is a grid without stickers. -/
theorem ofRows?_reads_back_small :
    (∃ g, ofRows? 2 [['a', 'b'], ['c', 'd']] = some g ∧ g.HasRows [['a', 'b'], ['c', 'd']]) ∧
    ∃ g, ofRows? 0 [] = some g ∧ g.HasRows [] := by
  obtain ⟨made, -⟩ := ofRows?_reads_back
  obtain ⟨accepts, reads⟩ := made [['a', 'b'], ['c', 'd']]
  obtain ⟨acceptsNone, readsNone⟩ := made []
  obtain ⟨g, hg⟩ := accepts.2 (by decide)
  obtain ⟨h, hh⟩ := acceptsNone.2 (by decide)
  exact ⟨⟨g, hg, reads g hg⟩, h, hh, readsNone h hh⟩

/-! ## Turning -/

theorem toRows_upsideDown (g : Grid n) :
    g.upsideDown.toRows = (g.toRows.map List.reverse).reverse := by
  have row : ∀ i, (List.finRange n).map (g.upsideDown.cell i) =
      ((List.finRange n).map (g.cell i.rev)).reverse := by
    intro i
    rw [← List.map_reverse, List.finRange_reverse, List.map_map]
    exact List.map_congr_left fun j _ => g.cell_upsideDown i j
  rw [toRows_eq_map_cell, toRows_eq_map_cell, List.map_map, ← List.map_reverse,
    List.finRange_reverse, List.map_map]
  exact List.map_congr_left fun i _ => row i

/-- Half a turn puts the last sticker first. -/
theorem stickers_upsideDown (g : Grid n) : g.upsideDown.stickers = g.stickers.reverse := by
  rw [stickers, stickers, toRows_upsideDown, List.reverse_flatten]

theorem isPeriodicPt_clockwise (g : Grid n) : Function.IsPeriodicPt clockwise 4 g := by
  show g.clockwise.clockwise.clockwise.clockwise = g
  exact ext_cell fun i j => by simp

theorem turned_eq_iterate (amount : Amount) (g : Grid n) :
    g.turned amount = clockwise^[amount.quarterTurns] g := by
  rw [turned_eq_act, Amount.act_eq_iterate]

theorem turned_turned (amount more : Amount) (g : Grid n) :
    (g.turned amount).turned more =
      clockwise^[(amount.quarterTurns + more.quarterTurns) % 4] g := by
  rw [turned_eq_iterate, turned_eq_iterate, ← Function.iterate_add_apply, Nat.add_comm,
    g.isPeriodicPt_clockwise.iterate_mod_apply]

theorem turned_turned_inverse (amount : Amount) (g : Grid n) :
    (g.turned amount).turned amount.inverse = g := by
  rw [turned_turned, amount.quarterTurns_add_inverse]
  rfl

/-- The cell that each turn brings to a place is found by number, and half a turn is the list
read backwards. All turns are repeated quarter turns, which come round after four, so one after
another they are again a turn or none, and each has its inverse. -/
theorem turned_group (g : Grid n) :
    (∀ amount, (g.turned amount).toRows.map List.length = List.replicate n n ∧
      (g.turned amount).stickers.length = n * n) ∧
    (∀ i j : Fin n,
      g.cell? (n - 1 - j) i = some (g.clockwise.cell i j) ∧
      g.cell? j (n - 1 - i) = some (g.counterclockwise.cell i j) ∧
      g.cell? (n - 1 - i) (n - 1 - j) = some (g.upsideDown.cell i j)) ∧
    g.upsideDown.stickers = g.stickers.reverse ∧
    (∀ amount, g.turned amount = clockwise^[amount.quarterTurns] g) ∧
    clockwise^[4] g = g ∧
    (∀ amount more, (g.turned amount).turned more =
      clockwise^[(amount.quarterTurns + more.quarterTurns) % 4] g) ∧
    ∀ amount, (g.turned amount).turned amount.inverse = g := by
  have mirrored : ∀ i : Fin n, n - 1 - i.val = i.rev.val := by
    intro i
    rw [Fin.val_rev]
    omega
  refine ⟨fun amount => ⟨map_length_toRows _, length_stickers _⟩, fun i j => ?_,
    g.stickers_upsideDown, fun amount => g.turned_eq_iterate amount, g.isPeriodicPt_clockwise,
    fun amount more => g.turned_turned amount more, fun amount => g.turned_turned_inverse amount⟩
  rw [mirrored, mirrored, cell_clockwise, cell_counterclockwise, cell_upsideDown]
  exact ⟨g.cell?_eq_some _ _, g.cell?_eq_some _ _, g.cell?_eq_some _ _⟩

end Twisty.Grid
