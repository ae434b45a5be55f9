import Twisty.Proofs.Shape

/-! What is wrong with the shape of a layout. The size is looked at first, then the faces one
after another, then the centers and then the colors, and the first defect is reported. Of
several colors that are miscounted it is the smallest one, in whatever order they were
counted. -/

namespace Twisty

/-! ## What comes first -/

/-- In a list that ascends, what is found first is the smallest of all that could be found. -/
theorem find?_eq_some_iff_of_pairwise {α : Type} {r : α → α → Prop} {p : α → Bool} {xs : List α}
    (ascends : xs.Pairwise r) (asymm : ∀ x y, r x y → ¬ r y x) {x : α} :
    xs.find? p = some x ↔ p x = true ∧ x ∈ xs ∧ ∀ y ∈ xs, r y x → p y = false := by
  rw [List.find?_eq_some_iff_append]
  refine and_congr_right fun found => ⟨?_, ?_⟩
  · rintro ⟨before, after, rfl, none⟩
    refine ⟨List.mem_append_right _ List.mem_cons_self, fun y hy smaller => ?_⟩
    obtain ⟨-, behind, -⟩ := List.pairwise_append.1 ascends
    rcases List.mem_append.1 hy with hy | hy
    · simpa using none y hy
    · rcases List.mem_cons.1 hy with rfl | hy
      · exact absurd smaller (asymm _ _ smaller)
      · exact absurd smaller (asymm _ _ (List.rel_of_pairwise_cons behind hy))
  · rintro ⟨mem, smallest⟩
    obtain ⟨before, after, rfl⟩ := List.append_of_mem mem
    refine ⟨before, after, rfl, fun y hy => ?_⟩
    obtain ⟨-, -, across⟩ := List.pairwise_append.1 ascends
    have smaller := across y hy x List.mem_cons_self
    simp [smallest y (List.mem_append_left _ hy) smaller]

/-- The faces that are listed before a face are those with a smaller index. -/
theorem Face.mem_before_iff {before after : List Face} {face : Face}
    (split : all = before ++ face :: after) (other : Face) :
    other ∈ before ↔ other.index < face.index := by
  have ascends : all.Pairwise fun face other => face.index < other.index := by decide
  rw [split] at ascends
  obtain ⟨-, behind, across⟩ := List.pairwise_append.1 ascends
  refine ⟨fun h => across other h face List.mem_cons_self, fun smaller => ?_⟩
  have listed := mem_all other
  rw [split, List.mem_append, List.mem_cons] at listed
  rcases listed with h | rfl | h
  · exact h
  · exact absurd smaller (Nat.lt_irrefl _)
  · exact absurd smaller (Nat.lt_asymm (List.rel_of_pairwise_cons behind h))

/-! ## Faces -/

namespace Layout

variable {layout : Layout} {size : Nat} {face : Face} {fault : LayoutFault}

def SquareRows (size : Nat) (rows : List (List Char)) : Prop :=
  rows.length = size ∧ ∀ row ∈ rows, row.length = size

/-- A face is there as a square of the right size. -/
def Square (layout : Layout) (size : Nat) (face : Face) : Prop :=
  ∃ rows, layout.get face = some rows ∧ SquareRows size rows

/-- What is wrong with one face. -/
def faceFault? (layout : Layout) (size : Nat) (face : Face) : Option LayoutFault :=
  match layout.grid size face with
  | .error fault => some fault
  | .ok _ => none

theorem faceFault?_eq_none_iff : layout.faceFault? size face = none ↔ layout.Square size face := by
  rw [faceFault?, grid, Square]
  cases layout.get face with
  | none => simp
  | some rows =>
    have square : (Grid.ofRows? size rows).isSome ↔ SquareRows size rows :=
      Grid.ofRows?_isSome_iff
    cases made : Grid.ofRows? size rows with
    | none => simpa [made] using square
    | some g => simpa [made] using square

theorem faceFault?_eq_some_iff : layout.faceFault? size face = some fault ↔
    (layout.get face = none ∧ fault = .missingFace face) ∨
    (∃ rows, layout.get face = some rows ∧ ¬ SquareRows size rows ∧
      fault = .misshapen face size) := by
  rw [faceFault?, grid]
  cases layout.get face with
  | none => simp [eq_comm]
  | some rows =>
    have square : (Grid.ofRows? size rows).isSome ↔ SquareRows size rows :=
      Grid.ofRows?_isSome_iff
    cases made : Grid.ofRows? size rows with
    | none => simp [← square, made, eq_comm]
    | some g => simp [← square, made]

/-- The faults of the single faces, as they are met one after another. -/
theorem bind_grid_eq_error_iff {α : Type} {next : Grid size → Except LayoutFault α}
    {rest : List Face} (later : ∀ g, layout.grid size face = .ok g →
      (next g = .error fault ↔ rest.findSome? (layout.faceFault? size) = some fault)) :
    (layout.grid size face >>= next) = .error fault ↔
      (face :: rest).findSome? (layout.faceFault? size) = some fault := by
  rw [List.findSome?_cons, faceFault?]
  cases made : layout.grid size face with
  | error found => simp [bind, Except.bind]
  | ok g => exact later g made

theorem assemble_eq_error_iff : layout.assemble size = .error fault ↔
    ∃ face, layout.faceFault? size face = some fault ∧
      ∀ other : Face, other.index < face.index → layout.Square size other := by
  have first : layout.assemble size = .error fault ↔
      Face.all.findSome? (layout.faceFault? size) = some fault := by
    unfold assemble
    refine bind_grid_eq_error_iff fun u _ => bind_grid_eq_error_iff fun f _ =>
      bind_grid_eq_error_iff fun r _ => bind_grid_eq_error_iff fun b _ =>
      bind_grid_eq_error_iff fun l _ => bind_grid_eq_error_iff fun d _ => ?_
    simp [pure, Except.pure]
  rw [first, List.findSome?_eq_some_iff]
  simp only [← faceFault?_eq_none_iff]
  constructor
  · rintro ⟨before, face, after, split, found, none⟩
    exact ⟨face, found, fun other h => none other ((Face.mem_before_iff split other).2 h)⟩
  · rintro ⟨face, found, none⟩
    obtain ⟨before, after, split⟩ := List.append_of_mem (Face.mem_all face)
    exact ⟨before, face, after, split, found,
      fun other h => none other ((Face.mem_before_iff split other).1 h)⟩

theorem exists_eq_toLayout_iff :
    (∃ s : Facelets size, layout = s.toLayout) ↔ ∀ face, layout.Square size face := by
  constructor
  · rintro ⟨s, rfl⟩ face
    refine ⟨_, s.get_toLayout face, Grid.ofRows?_isSome_iff.1 ?_⟩
    rw [Grid.ofRows?_toRows]
    rfl
  · intro square
    cases assembled : layout.assemble size with
    | ok s => exact ⟨s, assemble_eq_ok_iff.1 assembled⟩
    | error fault =>
      obtain ⟨face, found, -⟩ := assemble_eq_error_iff.1 assembled
      rw [faceFault?_eq_none_iff.2 (square face)] at found
      cases found

/-! ## Centers and colors -/

/-- The sticker in the middle of a face, if it is there. -/
def center? (layout : Layout) (size : Nat) (face : Face) : Option Char :=
  layout.sticker? face (size / 2) (size / 2)

/-- Only odd cubes have centers. -/
def CentersDiffer (layout : Layout) (size : Nat) : Prop :=
  size % 2 = 1 → Function.Injective (layout.center? size)

/-- The stickers of all faces that are there. -/
def stickers (layout : Layout) : List Char :=
  layout.toList.flatMap fun rows => (rows.getD []).flatten

theorem center?_toLayout (s : Facelets size) (pos : 0 < size) (face : Face) :
    s.toLayout.center? size face = some (s.center pos face) :=
  sticker?_toLayout s face ⟨size / 2, by omega⟩ ⟨size / 2, by omega⟩

theorem centersDiffer_toLayout_iff (s : Facelets size) (pos : 0 < size) :
    s.toLayout.CentersDiffer size ↔ (size % 2 = 1 → Function.Injective (s.center pos)) := by
  simp only [CentersDiffer, Function.Injective, center?_toLayout s pos, Option.some.injEq]

theorem stickers_toLayout (s : Facelets size) : s.toLayout.stickers = s.stickers := by
  rw [stickers, Facelets.toLayout, PerFace.toList_map, List.flatMap_map]
  rfl

end Layout

theorem Facelets.repeatedCenter?_eq_some_iff {n : Nat} (s : Facelets n) (pos : 0 < n)
    {color : Char} : s.repeatedCenter? pos = some color ↔ n % 2 = 1 ∧
      ∃ face, s.center pos face = color ∧
        (∃ other : Face, other.index < face.index ∧ s.center pos other = color) ∧
        ∀ one other : Face, one.index < face.index → other.index < face.index →
          s.center pos one = s.center pos other → one = other := by
  rw [repeatedCenter?]
  by_cases odd : n % 2 = 1
  · rw [if_pos odd, Palette.firstRepeat?_eq_some_iff]
    simp only [odd, true_and]
    constructor
    · rintro ⟨colors, more, split, distinct, again⟩
      obtain ⟨before, rest, listed, rfl, behind⟩ := List.map_eq_append_iff.1 split
      obtain ⟨face, after, rfl, rfl, -⟩ := List.map_eq_cons_iff.1 behind
      have mem := Face.mem_before_iff listed
      obtain ⟨other, earlier, same⟩ := List.mem_map.1 again
      refine ⟨face, rfl, ⟨other, (mem other).1 earlier, same⟩, fun one other h h' e => ?_⟩
      exact List.inj_on_of_nodup_map distinct ((mem one).2 h) ((mem other).2 h') e
    · rintro ⟨face, rfl, ⟨other, earlier, same⟩, distinct⟩
      obtain ⟨before, after, listed⟩ := List.append_of_mem (Face.mem_all face)
      have mem := Face.mem_before_iff listed
      refine ⟨before.map (s.center pos), after.map (s.center pos), by rw [listed]; simp, ?_, ?_⟩
      · have nodup : (before ++ face :: after).Nodup := by rw [← listed]; decide
        refine List.Nodup.map_on (fun one h other h' e => ?_) (List.nodup_append.1 nodup).1
        exact distinct one other ((mem one).1 h) ((mem other).1 h') e
      · exact List.mem_map.2 ⟨other, (mem other).2 earlier, same⟩
  · simp [odd]

/-- What is wrong with how often colors occur: there are not six of them, or one of the six has
not the stickers that it should have, and all smaller ones have. -/
inductive Miscounted (stickers : List Char) (expected : Nat) : LayoutFault → Prop
  | colorCount : stickers.toFinset.card ≠ 6 →
      Miscounted stickers expected (.colorCount stickers.toFinset.card)
  | unbalanced {color : Char} : stickers.toFinset.card = 6 → color ∈ stickers →
      stickers.count color ≠ expected →
      (∀ other ∈ stickers, other < color → stickers.count other = expected) →
      Miscounted stickers expected (.unbalanced color (stickers.count color) expected)

namespace Palette

/-- How often each color occurs, listed in any order. -/
structure Tally (stickers : List Char) (entries : List (Char × Nat)) : Prop where
  distinct : (entries.map Prod.fst).Nodup
  mem_iff : ∀ color count,
    (color, count) ∈ entries ↔ color ∈ stickers ∧ count = stickers.count color

/-- Counted colors in the order of their code points. -/
def ascending (entries : List (Char × Nat)) : List (Char × Nat) :=
  entries.mergeSort fun one other =>
    one.1 < other.1 || (one.1 == other.1 && one.2 ≤ other.2)

/-- Looks through counted colors for one that is not counted as often as expected. -/
def checkTally (expected : Nat) (entries : List (Char × Nat)) : Except LayoutFault Unit :=
  if entries.length = 6 then
    match (ascending entries).find? fun entry => entry.2 ≠ expected with
    | some (color, count) => .error (.unbalanced color count expected)
    | none => .ok ()
  else .error (.colorCount entries.length)

namespace Tally

variable {stickers : List Char} {entries others : List (Char × Nat)} {expected : Nat}

theorem perm (tally : Tally stickers entries) (h : entries.Perm others) :
    Tally stickers others where
  distinct := (h.map Prod.fst).nodup_iff.1 tally.distinct
  mem_iff color count := h.mem_iff.symm.trans (tally.mem_iff color count)

theorem length_eq (tally : Tally stickers entries) : entries.length = stickers.toFinset.card := by
  have same : (entries.map Prod.fst).toFinset = stickers.toFinset := by
    ext color
    simp only [List.mem_toFinset, List.mem_map, Prod.exists, tally.mem_iff]
    exact ⟨fun ⟨_, _, ⟨h, _⟩, e⟩ => e ▸ h, fun h => ⟨color, _, ⟨h, rfl⟩, rfl⟩⟩
  rw [← same, List.toFinset_card_of_nodup tally.distinct, List.length_map]

theorem pairwise_ascending (tally : Tally stickers entries) :
    (ascending entries).Pairwise fun one other => one.1 < other.1 := by
  have sorted : (ascending entries).Pairwise fun one other =>
      (one.1 < other.1 || (one.1 == other.1 && one.2 ≤ other.2)) = true :=
    List.pairwise_mergeSort (by grind) (by grind) entries
  have distinct : ((ascending entries).map Prod.fst).Nodup :=
    (tally.perm (List.mergeSort_perm entries _).symm).distinct
  refine sorted.imp₂ ?_ (List.pairwise_map.1 distinct)
  intro one other before apart
  simpa [apart] using before

/-- Which color is reported has nothing to do with the order in which they were met. -/
theorem checkTally_eq_error_iff (tally : Tally stickers entries) {fault : LayoutFault} :
    checkTally expected entries = .error fault ↔ Miscounted stickers expected fault := by
  have first : ∀ color count,
      (ascending entries).find? (fun entry => entry.2 ≠ expected) = some (color, count) ↔
        count ≠ expected ∧ (color ∈ stickers ∧ count = stickers.count color) ∧
          ∀ other ∈ stickers, other < color → stickers.count other = expected := by
    intro color count
    rw [find?_eq_some_iff_of_pairwise tally.pairwise_ascending fun _ _ => Char.lt_asymm]
    simp [ascending, List.mem_mergeSort, tally.mem_iff]
  rw [checkTally, tally.length_eq]
  by_cases six : stickers.toFinset.card = 6
  · rw [if_pos six]
    constructor
    · intro h
      split at h
      · rename_i color count found
        cases h
        obtain ⟨off, ⟨mem, rfl⟩, smallest⟩ := (first _ _).1 found
        exact .unbalanced six mem off smallest
      · cases h
    · intro h
      cases h with
      | colorCount other => exact absurd six other
      | unbalanced _ mem off smallest => rw [(first _ _).2 ⟨off, ⟨mem, rfl⟩, smallest⟩]
  · rw [if_neg six]
    constructor
    · rintro ⟨⟩
      exact .colorCount six
    · intro h
      cases h with
      | colorCount => rfl
      | unbalanced other => exact absurd other six

end Tally

/-- The colors that occur, each with its number. -/
def counted (stickers : List Char) : List (Char × Nat) :=
  (ofStickers stickers).map fun color => (color, stickers.count color)

theorem tally_counted (stickers : List Char) : Tally stickers (counted stickers) where
  distinct := by simpa [counted, Function.comp_def] using nodup_ofStickers stickers
  mem_iff color count := by simp [counted, mem_ofStickers, eq_comm, and_comm]

theorem ascending_counted (stickers : List Char) :
    ascending (counted stickers) = counted stickers := by
  refine List.mergeSort_of_pairwise ?_
  refine List.pairwise_map.2 ((pairwise_ofStickers stickers).imp fun smaller => ?_)
  simp [smaller]

end Palette

theorem Facelets.checkColors_eq_checkTally {n : Nat} (s : Facelets n) :
    s.checkColors = Palette.checkTally (n * n) (Palette.counted s.stickers) := by
  rw [checkColors, Palette.checkTally, Palette.ascending_counted, Palette.counted,
    List.length_map, List.find?_map]
  simp only [Function.comp_def]
  split
  · cases (Palette.ofStickers s.stickers).find? fun c => s.stickers.count c ≠ n * n <;> rfl
  · rfl

/-! ## The whole shape -/

namespace Layout

variable {layout : Layout} {size : Nat} {fault : LayoutFault}

/-- What a fault says of a layout, and that nothing that is looked at earlier is wrong. -/
inductive FirstDefect (layout : Layout) (size : Nat) : LayoutFault → Prop
  | tooSmall : size < 2 → FirstDefect layout size (.tooSmall size)
  | missingFace {face : Face} : 2 ≤ size →
      (∀ other : Face, other.index < face.index → layout.Square size other) →
      layout.get face = none → FirstDefect layout size (.missingFace face)
  | misshapen {face : Face} {rows : List (List Char)} : 2 ≤ size →
      (∀ other : Face, other.index < face.index → layout.Square size other) →
      layout.get face = some rows → ¬ SquareRows size rows →
      FirstDefect layout size (.misshapen face size)
  | repeatedCenter {face other : Face} {color : Char} : 2 ≤ size →
      (∀ face, layout.Square size face) → size % 2 = 1 → other.index < face.index →
      layout.center? size face = some color → layout.center? size other = some color →
      (∀ one other : Face, one.index < face.index → other.index < face.index →
        layout.center? size one = layout.center? size other → one = other) →
      FirstDefect layout size (.repeatedCenter color)
  | miscounted {fault : LayoutFault} : 2 ≤ size → (∀ face, layout.Square size face) →
      layout.CentersDiffer size → Miscounted layout.stickers (size * size) fault →
      FirstDefect layout size fault

theorem shape_toLayout (s : Facelets size) (two_le : 2 ≤ size) (pos : 0 < size) :
    s.toLayout.shape size =
      match s.repeatedCenter? pos with
      | some color => .error (.repeatedCenter color)
      | none => s.checkColors.map fun _ => ⟨s, two_le⟩ := by
  have assembled : s.toLayout.assemble size = .ok s := assemble_eq_ok_iff.2 rfl
  rw [shape, dif_pos two_le]
  generalize s.toLayout.assemble size = found at assembled ⊢
  cases assembled
  rfl

theorem checkColors_toLayout_iff (s : Facelets size) :
    s.checkColors = .error fault ↔ Miscounted s.toLayout.stickers (size * size) fault := by
  rw [s.checkColors_eq_checkTally, (Palette.tally_counted s.stickers).checkTally_eq_error_iff,
    stickers_toLayout]

theorem firstDefect_of_shape (h : layout.shape size = .error fault) :
    layout.FirstDefect size fault := by
  by_cases two_le : 2 ≤ size
  · have pos : 0 < size := Nat.zero_lt_of_lt two_le
    cases assembled : layout.assemble size with
    | error found =>
      rw [shape, dif_pos two_le, assembled] at h
      cases h
      obtain ⟨face, found, earlier⟩ := assemble_eq_error_iff.1 assembled
      rcases faceFault?_eq_some_iff.1 found with ⟨missing, rfl⟩ | ⟨rows, there, unfit, rfl⟩
      · exact .missingFace two_le earlier missing
      · exact .misshapen two_le earlier there unfit
    | ok s =>
      obtain rfl := assemble_eq_ok_iff.1 assembled
      have square := exists_eq_toLayout_iff.1 ⟨s, rfl⟩
      rw [shape_toLayout s two_le pos] at h
      cases centers : s.repeatedCenter? pos with
      | some color =>
        rw [centers] at h
        cases h
        obtain ⟨odd, face, here, ⟨other, earlier, there⟩, distinct⟩ :=
          (s.repeatedCenter?_eq_some_iff pos).1 centers
        refine .repeatedCenter two_le square odd earlier ?_ ?_ ?_
        · rw [center?_toLayout s pos, here]
        · rw [center?_toLayout s pos, there]
        · simpa only [center?_toLayout s pos, Option.some.injEq] using distinct
      | none =>
        have differ := (centersDiffer_toLayout_iff s pos).2
          ((s.repeatedCenter?_eq_none_iff pos).1 centers)
        rw [centers] at h
        cases colors : s.checkColors with
        | ok _ => rw [colors] at h; cases h
        | error found =>
          rw [colors] at h
          cases h
          exact .miscounted two_le square differ ((checkColors_toLayout_iff s).1 colors)
  · rw [shape, dif_neg two_le] at h
    cases h
    exact .tooSmall (Nat.lt_of_not_le two_le)

theorem shape_of_firstDefect (h : layout.FirstDefect size fault) :
    layout.shape size = .error fault := by
  cases h with
  | tooSmall lt => rw [shape, dif_neg (Nat.not_le.2 lt)]
  | missingFace two_le earlier missing =>
    have found : layout.faceFault? size _ = some (.missingFace _) :=
      faceFault?_eq_some_iff.2 (Or.inl ⟨missing, rfl⟩)
    rw [shape, dif_pos two_le, assemble_eq_error_iff.2 ⟨_, found, earlier⟩]
  | misshapen two_le earlier there unfit =>
    have found := faceFault?_eq_some_iff.2 (Or.inr ⟨_, there, unfit, rfl⟩)
    rw [shape, dif_pos two_le, assemble_eq_error_iff.2 ⟨_, found, earlier⟩]
  | @repeatedCenter face other color two_le square odd earlier here there distinct =>
    obtain ⟨s, rfl⟩ := exists_eq_toLayout_iff.2 square
    have pos : 0 < size := Nat.zero_lt_of_lt two_le
    simp only [center?_toLayout s pos, Option.some.injEq] at here there distinct
    rw [shape_toLayout s two_le pos, (s.repeatedCenter?_eq_some_iff pos).2
      ⟨odd, face, here, ⟨other, earlier, there⟩, distinct⟩]
  | miscounted two_le square differ miscounted =>
    obtain ⟨s, rfl⟩ := exists_eq_toLayout_iff.2 square
    have pos : 0 < size := Nat.zero_lt_of_lt two_le
    have distinct := (centersDiffer_toLayout_iff s pos).1 differ
    have centers := (s.repeatedCenter?_eq_none_iff pos).2 distinct
    rw [shape_toLayout s two_le pos, centers, (checkColors_toLayout_iff s).2 miscounted]
    rfl

/-- Only the colors are left to be looked at. -/
theorem firstDefect_iff_miscounted (two_le : 2 ≤ size) (square : ∀ face, layout.Square size face)
    (differ : layout.CentersDiffer size) :
    layout.FirstDefect size fault ↔ Miscounted layout.stickers (size * size) fault := by
  refine ⟨fun h => ?_, .miscounted two_le square differ⟩
  cases h with
  | tooSmall lt => exact absurd two_le (Nat.not_le.2 lt)
  | @missingFace face _ _ missing =>
    obtain ⟨rows, there, -⟩ := square face
    rw [missing] at there
    cases there
  | @misshapen face rows _ _ there unfit =>
    obtain ⟨others, same, fit⟩ := square face
    rw [there] at same
    cases same
    exact absurd fit unfit
  | repeatedCenter _ _ odd earlier here there _ =>
    obtain rfl := differ odd (here.trans there.symm)
    exact absurd earlier (Nat.lt_irrefl _)
  | miscounted _ _ _ miscounted => exact miscounted

theorem exists_shape_eq_ok_iff : (∃ c, layout.shape size = .ok c) ↔
    2 ≤ size ∧ (∀ face, layout.Square size face) ∧ layout.CentersDiffer size ∧
      layout.stickers.toFinset.card = 6 ∧
      ∀ color ∈ layout.stickers, layout.stickers.count color = size * size := by
  constructor
  · rintro ⟨c, h⟩
    obtain ⟨same, balanced, distinct⟩ := shape_eq_ok_iff.1 h
    subst same
    rw [stickers_toLayout]
    exact ⟨c.two_le, exists_eq_toLayout_iff.1 ⟨_, rfl⟩,
      (centersDiffer_toLayout_iff _ c.pos).2 distinct, balanced⟩
  · rintro ⟨two_le, square, differ, balanced⟩
    obtain ⟨s, rfl⟩ := exists_eq_toLayout_iff.2 square
    rw [stickers_toLayout] at balanced
    exact ⟨⟨s, two_le⟩, shape_eq_ok_iff.2
      ⟨rfl, balanced, (centersDiffer_toLayout_iff s (Nat.zero_lt_of_lt two_le)).1 differ⟩⟩

/-- The shape of a layout is right if its size is, all faces are squares, no two centers of an
odd cube agree, and there are six colors on one face's worth of stickers each. Otherwise the
first defect is reported. Once the colors are reached, the answer is the same in whatever
order they were counted. -/
theorem shape_reports (layout : Layout) (size : Nat) :
    ((∃ c, layout.shape size = .ok c) ↔
      2 ≤ size ∧ (∀ face, layout.Square size face) ∧ layout.CentersDiffer size ∧
        layout.stickers.toFinset.card = 6 ∧
        ∀ color ∈ layout.stickers, layout.stickers.count color = size * size) ∧
    (∀ fault, layout.shape size = .error fault ↔ layout.FirstDefect size fault) ∧
    ∀ entries, 2 ≤ size → (∀ face, layout.Square size face) → layout.CentersDiffer size →
      Palette.Tally layout.stickers entries →
      ∀ fault, layout.shape size = .error fault ↔
        Palette.checkTally (size * size) entries = .error fault := by
  have reports : ∀ fault, layout.shape size = .error fault ↔ layout.FirstDefect size fault :=
    fun fault => ⟨firstDefect_of_shape, shape_of_firstDefect⟩
  refine ⟨exists_shape_eq_ok_iff, reports, fun entries two_le square differ tally fault => ?_⟩
  rw [reports, firstDefect_iff_miscounted two_le square differ, tally.checkTally_eq_error_iff]

/-- A small cube with one sticker of U in the color of F. Two colors are miscounted then. -/
def repainted : Layout :=
  (Facelets.solved 2 ⟨'w', 'g', 'r', 'b', 'o', 'y'⟩).toLayout.paint .u 0 0 'g'

/-- White is met first, but green is the smaller of the two. -/
theorem shape_reports_repainted :
    2 ≤ 2 ∧ (∀ face, repainted.Square 2 face) ∧ repainted.CentersDiffer 2 ∧
    Palette.Tally repainted.stickers (Palette.counted repainted.stickers).reverse ∧
    repainted.FirstDefect 2 (.unbalanced 'g' 5 4) ∧
    (¬ ∃ c, repainted.shape 2 = .ok c) ∧
    Palette.checkTally (2 * 2) (Palette.counted repainted.stickers).reverse =
      .error (.unbalanced 'g' 5 4) := by
  obtain ⟨accepts, reports, unordered⟩ := shape_reports repainted 2
  have square : ∀ face, repainted.Square 2 face := fun face =>
    faceFault?_eq_none_iff.1 (by cases face <;> decide)
  have differ : repainted.CentersDiffer 2 := fun odd => absurd odd (by decide)
  have tally := (Palette.tally_counted repainted.stickers).perm (List.reverse_perm _).symm
  have found : repainted.shape 2 = .error (.unbalanced 'g' 5 4) := rfl
  have checked := (unordered _ (Nat.le_refl 2) square differ tally _).1 found
  refine ⟨Nat.le_refl 2, square, differ, tally, (reports _).1 found, ?_, checked⟩
  rw [accepts]
  rintro ⟨-, -, -, -, balanced⟩
  exact absurd (balanced 'g' (by decide)) (by decide)

end Layout

end Twisty
