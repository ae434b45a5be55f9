import Twisty.Facelets.Net

/-! The net of a cube, read back. Every face has its lines and its columns in the net, and
those of U and D are the columns of F. Which they are hangs on the size of the cube alone,
and the size shows in how far the first line is indented, so the net tells the cube whatever
its stickers are. -/

namespace Twisty

/-! ## Lists laid side by side -/

section Lists

variable {α β : Type}

/-- In a row of blocks of one width, each block is found at a multiple of the width. -/
theorem getElem?_flatMap_of_length {f : α → List β} {width : Nat} {xs : List α}
    (same : ∀ x ∈ xs, (f x).length = width) (k : Nat) {j : Nat} (lt : j < width) :
    (xs.flatMap f)[k * width + j]? = xs[k]?.bind fun x => (f x)[j]? := by
  induction xs generalizing k with
  | nil => simp
  | cons x rest ih =>
    obtain ⟨hx, hrest⟩ := List.forall_mem_cons.1 same
    rw [List.flatMap_cons]
    cases k with
    | zero =>
      rw [List.getElem?_append_left (by omega), Nat.zero_mul, Nat.zero_add]
      rfl
    | succ k =>
      rw [List.getElem?_append_right (by rw [hx, Nat.succ_mul]; omega), hx,
        show (k + 1) * width + j - width = k * width + j by rw [Nat.succ_mul]; omega, ih hrest]
      rfl

/-- Lines of known lengths can be told apart again after they are joined. -/
theorem eq_of_intercalate_eq {sep : List α} {xs ys : List (List α)}
    (lengths : xs.map List.length = ys.map List.length)
    (joined : sep.intercalate xs = sep.intercalate ys) : xs = ys := by
  induction xs generalizing ys with
  | nil => exact (List.map_eq_nil_iff.1 lengths.symm).symm
  | cons x rest ih =>
    cases ys with
    | nil => cases lengths
    | cons y more =>
      obtain ⟨first, others⟩ := List.cons.inj lengths
      cases rest with
      | nil =>
        cases List.map_eq_nil_iff.1 others.symm
        simpa using joined
      | cons x' rest =>
        cases more with
        | nil => cases others
        | cons y' more =>
          simp only [List.intercalate_cons_cons, List.append_assoc] at joined
          obtain ⟨rfl, tails⟩ := List.append_inj joined first
          rw [ih others (List.append_cancel_left tails)]

theorem exists_intercalate_cons (sep x : List α) (rest : List (List α)) :
    ∃ tail, sep.intercalate (x :: rest) = x ++ tail := by
  cases rest with
  | nil => exact ⟨[], by simp⟩
  | cons y rest => exact ⟨_, by rw [List.intercalate_cons_cons, List.append_assoc]⟩

theorem exists_intercalate_concat (sep : List α) (xs : List (List α)) (y : List α) :
    ∃ front, sep.intercalate (xs ++ [y]) = front ++ y := by
  induction xs with
  | nil => exact ⟨[], by simp⟩
  | cons x rest ih =>
    obtain ⟨front, h⟩ := ih
    obtain ⟨z, more, hz⟩ : ∃ z more, rest ++ [y] = z :: more :=
      List.exists_cons_of_ne_nil (by simp)
    refine ⟨x ++ sep ++ front, ?_⟩
    rw [List.cons_append, hz, List.intercalate_cons_cons, ← hz, h, List.append_assoc _ front]

end Lists

/-! ## Where a face is drawn -/

namespace Face

/-- The number of lines above the first row of a face. -/
def netLine (n : Nat) : Face → Nat
  | u => 1
  | l | f | r | b => n + 2
  | d => 2 * n + 3

/-- How many borders with rows under them stand above those of a face. -/
def band : Face → Nat
  | u => 0
  | l | f | r | b => 1
  | d => 2

theorem netLine_eq (n : Nat) (face : Face) : face.netLine n = face.band * (n + 1) + 1 := by
  cases face <;> simp only [netLine, band] <;> omega

/-- The number of characters to the left of the first column of a face. -/
def netColumn (n : Nat) : Face → Nat
  | l => 2
  | u | f | d => 2 * n + 4
  | r => 4 * n + 6
  | b => 6 * n + 8

/-- How many faces fit to the left of a face. -/
def file : Face → Nat
  | l => 0
  | u | f | d => 1
  | r => 2
  | b => 3

theorem netColumn_eq (n : Nat) (face : Face) :
    face.netColumn n = face.file * (2 * n + 2) + 2 := by
  cases face <;> simp only [netColumn, file] <;> omega

end Face

namespace Facelets

open Grid

variable {n : Nat}

/-- A row between its borders, two characters for each sticker. -/
theorem length_stripBlock {row : List Char} (h : row.length = n) (pos : 0 < n) :
    (' ' :: spaced row ++ [' ', '│']).length = 2 * n + 2 := by
  simp only [spaced, List.length_append, List.length_cons, List.length_intersperse,
    List.length_nil, h]
  omega

theorem getElem?_stripLine {rows : List (List Char)} (same : ∀ row ∈ rows, row.length = n)
    (k : Nat) {j : Nat} (lt : j < n) :
    (stripLine rows)[k * (2 * n + 2) + 2 + 2 * j]? = rows[k]?.bind fun row => row[j]? := by
  have widths : ∀ row ∈ rows, (' ' :: spaced row ++ [' ', '│']).length = 2 * n + 2 :=
    fun row h => length_stripBlock (same row h) (by omega)
  have block : ∀ row ∈ rows, (' ' :: spaced row ++ [' ', '│'])[1 + 2 * j]? = row[j]? := by
    intro row h
    have inside : 2 * j < (spaced row).length := by
      rw [spaced, List.length_intersperse, same row h]
      omega
    rw [Nat.add_comm 1, List.cons_append, List.getElem?_cons_succ,
      List.getElem?_append_left inside]
    exact List.getElem?_intersperse_two_mul
  rw [stripLine, show k * (2 * n + 2) + 2 + 2 * j = k * (2 * n + 2) + (1 + 2 * j) + 1 by omega,
    List.getElem?_cons_succ, getElem?_flatMap_of_length widths k (by omega)]
  cases found : rows[k]? with
  | none => rfl
  | some row => exact block row (List.mem_of_getElem? found)

theorem getElem?_indented (cs : List Char) (k : Nat) :
    (indented n cs)[2 * n + 2 + k]? = cs[k]? := by
  rw [indented, List.getElem?_append_right (by simp), List.length_replicate,
    Nat.add_sub_cancel_left]

/-- The line of the net in which a row of a face is drawn. -/
def lineWith (s : Facelets n) (face : Face) (i : Fin n) : List Char :=
  match face with
  | .u => indented n (stripLine [(s.u.rows.get i).toList])
  | .d => indented n (stripLine [(s.d.rows.get i).toList])
  | _ => stripLine ([s.l, s.f, s.r, s.b].map fun g => (g.rows.get i).toList)

/-- The borders in the net that have rows under them, each with a face whose rows these are. -/
def bands (n : Nat) : List (List Char × Face) :=
  [(indented n ('┌' :: border n ++ ['┐']), .u), (seamLine n '┌' '┼' '┬' '┐', .f),
    (seamLine n '└' '┼' '┴' '┘', .d)]

/-- A border and the rows under it. -/
def bandLines (s : Facelets n) (band : List Char × Face) : List (List Char) :=
  band.1 :: (List.finRange n).map (s.lineWith band.2)

theorem length_bandLines (s : Facelets n) (band : List Char × Face) :
    (s.bandLines band).length = n + 1 := by
  simp [bandLines]

theorem getElem?_bandLines (s : Facelets n) (band : List Char × Face) (i : Fin n) :
    (s.bandLines band)[i.val + 1]? = some (s.lineWith band.2 i) := by
  simp [bandLines]

theorem netLines_eq (s : Facelets n) :
    s.netLines = (bands n).flatMap s.bandLines ++ [indented n ('└' :: border n ++ ['┘'])] := by
  simp only [netLines, stripRows, toRows_eq_map_get, List.map_map, bands, List.flatMap_cons,
    List.flatMap_nil, List.append_nil, List.append_assoc]
  rfl

theorem length_flatMap_bandLines (s : Facelets n) :
    ((bands n).flatMap s.bandLines).length = 3 * (n + 1) := by
  simp only [bands, List.flatMap_cons, List.flatMap_nil, List.length_append, length_bandLines,
    List.length_nil]
  omega

theorem length_netLines (s : Facelets n) : s.netLines.length = 3 * n + 4 := by
  rw [netLines_eq, List.length_append, length_flatMap_bandLines]
  rfl

theorem getElem?_netLines (s : Facelets n) (face : Face) (i : Fin n) :
    s.netLines[face.netLine n + i]? = some (s.lineWith face i) := by
  have inside : face.band * (n + 1) + (i.val + 1) < ((bands n).flatMap s.bandLines).length := by
    have last : face.band * (n + 1) ≤ 2 * (n + 1) :=
      Nat.mul_le_mul_right _ (by cases face <;> simp [Face.band])
    rw [length_flatMap_bandLines]
    omega
  rw [netLines_eq, Face.netLine_eq, Nat.add_assoc, Nat.add_comm 1,
    List.getElem?_append_left inside,
    getElem?_flatMap_of_length (fun band _ => s.length_bandLines band) _ (by omega)]
  simp only [getElem?_bandLines]
  cases face <;> rfl

theorem getElem?_lineWith (s : Facelets n) (face : Face) (i j : Fin n) :
    (s.lineWith face i)[face.netColumn n + 2 * j]? = some (s.sticker face i j) := by
  have alone : ∀ g : Grid n, (indented n (stripLine [(g.rows.get i).toList]))[
      1 * (2 * n + 2) + 2 + 2 * j.val]? = some (g.cell i j) := by
    intro g
    have widths : ∀ row ∈ [(g.rows.get i).toList], row.length = n := by simp
    rw [show 1 * (2 * n + 2) + 2 + 2 * j.val = 2 * n + 2 + (0 * (2 * n + 2) + 2 + 2 * j.val) by omega,
      getElem?_indented, getElem?_stripLine widths 0 j.isLt]
    exact getElem?_get_rows g i j
  have beside : ∀ k, (stripLine ([s.l, s.f, s.r, s.b].map fun g => (g.rows.get i).toList))[
      k * (2 * n + 2) + 2 + 2 * j.val]? =
        [s.l, s.f, s.r, s.b][k]?.bind fun g => some (g.cell i j) := by
    intro k
    have widths : ∀ row ∈ [s.l, s.f, s.r, s.b].map fun g => (g.rows.get i).toList,
        row.length = n := by simp
    rw [getElem?_stripLine widths k j.isLt, List.getElem?_map, Option.bind_map]
    simp only [Function.comp_def, getElem?_get_rows]
  rw [Face.netColumn_eq]
  cases face with
  | u => exact alone s.u
  | d => exact alone s.d
  | l => exact beside 0
  | f => exact beside 1
  | r => exact beside 2
  | b => exact beside 3

/-- How long the lines are does not depend on the stickers. -/
theorem map_length_netLines (s t : Facelets n) :
    s.netLines.map List.length = t.netLines.map List.length := by
  have rows : ∀ face i, (s.lineWith face i).length = (t.lineWith face i).length := by
    intro face i
    cases face <;>
      simp [lineWith, indented, stripLine, spaced, List.length_intersperse]
  simp only [netLines_eq, bandLines, List.map_append, List.map_flatMap, List.map_cons,
    List.map_map, Function.comp_def, rows]

theorem toList_net (s : Facelets n) : s.net.toList = ['\n'].intercalate s.netLines :=
  String.toList_ofList

/-- The blanks at the start tell the size. -/
theorem takeWhile_net (s : Facelets n) :
    s.net.toList.takeWhile (· == ' ') = List.replicate (2 * n + 2) ' ' := by
  obtain ⟨tail, h⟩ := exists_intercalate_cons ['\n'] (indented n ('┌' :: border n ++ ['┐']))
    s.netLines.tail
  have first : s.netLines = indented n ('┌' :: border n ++ ['┐']) :: s.netLines.tail := rfl
  rw [toList_net, first, h, indented, List.append_assoc,
    List.takeWhile_append_of_pos (by simp)]
  simp

/-- No newline stands at the end. -/
theorem getLast?_net (s : Facelets n) : s.net.toList.getLast? = some '┘' := by
  rw [toList_net, netLines_eq]
  obtain ⟨front, h⟩ := exists_intercalate_concat ['\n'] ((bands n).flatMap s.bandLines)
    (indented n ('└' :: border n ++ ['┘']))
  rw [h, indented, ← List.append_assoc, ← List.append_assoc, List.getLast?_concat]

/-- What is printed of a cube: three bands of lines and one that closes the last, in which
each sticker has its place, whatever character it is. Nothing else is needed to tell the
cube, its size included. -/
theorem net_tells (s : Facelets n) :
    s.net.toList = ['\n'].intercalate s.netLines ∧ s.net.toList.getLast? = some '┘' ∧
    s.netLines.length = 3 * n + 4 ∧
    (∀ (face : Face) (i j : Fin n), ∃ row, s.netLines[face.netLine n + i.val]? = some row ∧
      row[face.netColumn n + 2 * j.val]? = some (s.sticker face i j)) ∧
    ∀ {m : Nat} (t : Facelets m), s.net = t.net ↔ (⟨n, s⟩ : Sigma Facelets) = ⟨m, t⟩ := by
  refine ⟨s.toList_net, s.getLast?_net, s.length_netLines,
    fun face i j => ⟨_, s.getElem?_netLines face i, s.getElem?_lineWith face i j⟩, ?_⟩
  intro m t
  constructor
  · intro same
    have sizes := s.takeWhile_net
    rw [same, t.takeWhile_net] at sizes
    have size := congrArg List.length sizes
    rw [List.length_replicate, List.length_replicate] at size
    obtain rfl : m = n := by omega
    have texts := congrArg String.toList same
    rw [toList_net, toList_net] at texts
    -- Stickers may be newlines themselves, so the lines are parted by their lengths.
    have lines := eq_of_intercalate_eq (map_length_netLines s t) texts
    have states : s = t := ext_sticker fun face i j => by
      have rows := s.getElem?_netLines face i
      rw [lines, t.getElem?_netLines] at rows
      have stickers := s.getElem?_lineWith face i j
      rw [← Option.some.inj rows, t.getElem?_lineWith] at stickers
      exact (Option.some.inj stickers).symm
    rw [states]
  · intro same
    cases same
    rfl

end Facelets

end Twisty
