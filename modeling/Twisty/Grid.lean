import Twisty.Move.Amount

/-! Square grids of stickers, the faces of a cube. A grid is known by its cells; each
operation says what it does to them. Cells are named by row and column, both from
zero. -/

namespace Twisty

structure Grid (n : Nat) where
  rows : Vector (Vector Char n) n
deriving DecidableEq

namespace Grid

variable {n : Nat}

def cell (g : Grid n) (i j : Fin n) : Char := g.rows[i][j]

theorem ext_cell {g h : Grid n} (same : ∀ i j, g.cell i j = h.cell i j) : g = h := by
  cases g; cases h
  congr 1
  apply Vector.ext
  intro i hi
  apply Vector.ext
  intro j hj
  exact same ⟨i, hi⟩ ⟨j, hj⟩

def ofFn (cell : Fin n → Fin n → Char) : Grid n :=
  ⟨.ofFn fun i => .ofFn fun j => cell i j⟩

@[simp] theorem cell_ofFn (f : Fin n → Fin n → Char) (i j : Fin n) :
    (ofFn f).cell i j = f i j := by
  simp [cell, ofFn]

@[simp] theorem ofFn_cell (g : Grid n) : ofFn g.cell = g := ext_cell fun i j => by simp

def filled (n : Nat) (color : Char) : Grid n := ⟨.replicate n (.replicate n color)⟩

@[simp] theorem cell_filled (color : Char) (i j : Fin n) : (filled n color).cell i j = color := by
  simp [cell, filled]

/-! ## Rows -/

/-- The grid with given rows, if there are `n` of them and each is `n` long. -/
def ofRows? (n : Nat) (rows : List (List Char)) : Option (Grid n) :=
  if h : rows.length = n ∧ ∀ row ∈ rows, row.length = n then
    some ⟨.ofFn fun i => ⟨(rows.get (i.cast h.1.symm)).toArray, by simp [h.2]⟩⟩
  else none

theorem ofRows?_isSome_iff {n : Nat} {rows : List (List Char)} :
    (ofRows? n rows).isSome = true ↔ rows.length = n ∧ ∀ row ∈ rows, row.length = n := by
  simp only [ofRows?]
  split <;> simp_all

def toRows (g : Grid n) : List (List Char) := g.rows.toList.map Vector.toList

@[simp] theorem length_toRows (g : Grid n) : g.toRows.length = n := by simp [toRows]

theorem toRows_eq_map_get (g : Grid n) :
    g.toRows = (List.finRange n).map fun i => (g.rows.get i).toList := by
  apply List.ext_getElem <;> simp [toRows, Vector.get]

theorem getElem?_get_rows (g : Grid n) (i j : Fin n) :
    (g.rows.get i).toList[j.val]? = some (g.cell i j) := by
  simp [cell, Vector.get]

theorem toRows_ofRows? {n : Nat} {rows : List (List Char)} {g : Grid n}
    (h : ofRows? n rows = some g) : g.toRows = rows := by
  simp only [ofRows?] at h
  split at h
  · rename_i hr
    cases h
    apply List.ext_getElem
    · simp [hr.1]
    · intro i _ _
      simp [toRows]
  · cases h

theorem ofRows?_toRows (g : Grid n) : ofRows? n g.toRows = some g := by
  have hs : (ofRows? n g.toRows).isSome = true := by
    rw [ofRows?_isSome_iff]
    refine ⟨g.length_toRows, fun row hrow => ?_⟩
    obtain ⟨r, _, rfl⟩ := List.mem_map.1 hrow
    simp
  obtain ⟨k, hk⟩ := Option.isSome_iff_exists.1 hs
  have hrows := toRows_ofRows? hk
  rw [hk]
  congr 1
  apply ext_cell
  intro i j
  have hi := congrArg (fun rows => (rows[i.val]?.getD [])[j.val]?) hrows
  simpa [toRows, cell] using hi

/-- The row with a given number, if there is one. -/
def row? (g : Grid n) (i : Nat) : Option (List Char) := g.toRows[i]?

/-- The cell with given numbers, if there is one. -/
def cell? (g : Grid n) (i j : Nat) : Option Char :=
  if h : i < n ∧ j < n then some (g.cell ⟨i, h.1⟩ ⟨j, h.2⟩) else none

/-- All stickers, row by row. -/
def stickers (g : Grid n) : List Char := g.toRows.flatten

theorem mem_stickers_iff {g : Grid n} {c : Char} : c ∈ g.stickers ↔ ∃ i j, g.cell i j = c := by
  simp only [stickers, toRows, List.mem_flatten, List.mem_map, Vector.mem_toList_iff]
  constructor
  · intro h
    obtain ⟨_, ⟨row, hrow, rfl⟩, hc⟩ := h
    obtain ⟨i, hi, rfl⟩ := Vector.mem_iff_getElem.1 hrow
    obtain ⟨j, hj, rfl⟩ := Vector.mem_iff_getElem.1 (Vector.mem_toList_iff.1 hc)
    exact ⟨⟨i, hi⟩, ⟨j, hj⟩, rfl⟩
  · intro h
    obtain ⟨i, j, rfl⟩ := h
    exact ⟨_, ⟨g.rows[i], by simp, rfl⟩, by simp [cell]⟩

/-- Whether all stickers have one color. A grid without stickers is uniform. -/
def isUniform (g : Grid n) : Bool :=
  match g.stickers with
  | [] => true
  | c :: rest => rest.all (· == c)

theorem isUniform_iff (g : Grid n) :
    g.isUniform = true ↔ ∀ c ∈ g.stickers, ∀ e ∈ g.stickers, c = e := by
  simp only [isUniform]
  split
  · rename_i h; simp [h]
  · rename_i c rest h
    rw [h]
    simp only [List.all_eq_true, beq_iff_eq]
    constructor
    · intro all x hx y hy
      have eq_c : ∀ z ∈ c :: rest, z = c := fun z hz => by
        rcases List.mem_cons.1 hz with e | e
        · exact e
        · exact all z e
      exact (eq_c x hx).trans (eq_c y hy).symm
    · intro same x hx
      exact same x (List.mem_cons_of_mem _ hx) c List.mem_cons_self

/-! ## Turning a grid in its plane -/

def clockwise (g : Grid n) : Grid n := ofFn fun i j => g.cell j.rev i

def counterclockwise (g : Grid n) : Grid n := ofFn fun i j => g.cell j i.rev

def upsideDown (g : Grid n) : Grid n := ofFn fun i j => g.cell i.rev j.rev

@[simp] theorem cell_clockwise (g : Grid n) (i j : Fin n) :
    g.clockwise.cell i j = g.cell j.rev i := by simp [clockwise]

@[simp] theorem cell_counterclockwise (g : Grid n) (i j : Fin n) :
    g.counterclockwise.cell i j = g.cell j i.rev := by simp [counterclockwise]

@[simp] theorem cell_upsideDown (g : Grid n) (i j : Fin n) :
    g.upsideDown.cell i j = g.cell i.rev j.rev := by simp [upsideDown]

def turned (amount : Amount) (g : Grid n) : Grid n :=
  match amount with
  | .clockwise => g.clockwise
  | .counterclockwise => g.counterclockwise
  | .half => g.upsideDown

theorem turned_eq_act (amount : Amount) (g : Grid n) :
    g.turned amount = amount.act clockwise g := by
  apply ext_cell
  intro i j
  cases amount <;> simp [turned, Amount.act]

/-- Takes the rows above a given one from another grid. -/
def withTop (layers : Nat) (top g : Grid n) : Grid n :=
  ⟨.ofFn fun i => if i.val < layers then top.rows[i] else g.rows[i]⟩

@[simp] theorem cell_withTop (layers : Nat) (top g : Grid n) (i j : Fin n) :
    (withTop layers top g).cell i j =
      if i.val < layers then top.cell i j else g.cell i j := by
  by_cases h : i.val < layers <;> simp [withTop, cell, h]

/-! ## Drawing -/

/-- The stickers of a row with a blank between neighbours. -/
def spaced (row : List Char) : List Char := row.intersperse ' '

/-- One edge of a box around a grid. -/
def border (n : Nat) : List Char := List.replicate (2 * n + 1) '─'

/-- The lines of a grid drawn in a box. -/
def boxLines (g : Grid n) : List (List Char) :=
  ('┌' :: border n ++ ['┐']) ::
    g.toRows.map (fun row => '│' :: ' ' :: spaced row ++ [' ', '│']) ++
    ['└' :: border n ++ ['┘']]

def boxText (g : Grid n) : String := String.ofList (['\n'].intercalate g.boxLines)

end Grid

end Twisty
