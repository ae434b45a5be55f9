import Twisty.Proofs.Composed
import Twisty.Proofs.FirstDefect
import Twisty.Proofs.Genuine

/-! Other colors. Nothing that is done to a cube looks at its colors, so any colors may be put
in the place of others before or after. The validator compares colors with each other, and so
it finds the same scheme in other colors as long as different colors stay different. -/

namespace Twisty

open Corner

variable {n : Nat} {g : Char → Char}

/-! ## Stickers in other colors -/

namespace Grid

/-- Every sticker in the color that is put in the place of its own. -/
def recolored (g : Char → Char) (grid : Grid n) : Grid n := .ofFn fun i j => g (grid.cell i j)

@[simp] theorem cell_recolored (grid : Grid n) (i j : Fin n) :
    (grid.recolored g).cell i j = g (grid.cell i j) := cell_ofFn _ i j

theorem toRows_recolored (grid : Grid n) :
    (grid.recolored g).toRows = grid.toRows.map (List.map g) := by
  simp [toRows_eq_map_cell, Function.comp_def]

theorem stickers_recolored (grid : Grid n) :
    (grid.recolored g).stickers = grid.stickers.map g := by
  rw [stickers, stickers, toRows_recolored, List.map_flatten]

end Grid

namespace Facelets

def recolored (g : Char → Char) (s : Facelets n) : Facelets n := s.map (Grid.recolored g)

@[simp] theorem sticker_recolored (s : Facelets n) (face : Face) (i j : Fin n) :
    (s.recolored g).sticker face i j = g (s.sticker face i j) := by
  rw [sticker, recolored, PerFace.get_map, Grid.cell_recolored, ← sticker]

theorem stickers_recolored (s : Facelets n) : (s.recolored g).stickers = s.stickers.map g := by
  simp only [stickers, recolored, PerFace.toList_map, List.flatMap_map, List.map_flatMap,
    Grid.stickers_recolored]

/-! ## Motions -/

theorem rotate_recolored (axis : Axis) (s : Facelets n) :
    rotate axis (s.recolored g) = (rotate axis s).recolored g := by
  apply ext_sticker
  intro face i j
  cases axis <;> cases face <;> simp [rotate, recolored, sticker, PerFace.get, PerFace.map]

theorem turnTop_recolored (layers : Nat) (s : Facelets n) :
    turnTop layers (s.recolored g) = (turnTop layers s).recolored g := by
  apply ext_sticker
  intro face i j
  by_cases h : i.val < layers <;> cases face <;>
    simp [turnTop, recolored, sticker, PerFace.get, PerFace.map, h]

/-- What is composed of turns moves stickers about, whatever their colors. -/
theorem Composed.recolored {f : Facelets n → Facelets n} (h : Composed f) (s : Facelets n) :
    f (s.recolored g) = (f s).recolored g := by
  induction h generalizing s with
  | still => rfl
  | rotate axis => exact rotate_recolored axis s
  | turnTop => exact turnTop_recolored _ s
  | @comp first second _ _ ihf ihs =>
    calc second (first (s.recolored g))
        = second ((first s).recolored g) := by rw [ihf]
      _ = (second (first s)).recolored g := ihs (first s)

/-! ## What shows at corners and centers -/

variable {pos : 0 < n}

theorem corner_recolored (s : Facelets n) (slot : Corner Face) :
    (s.recolored g).corner pos slot = (s.corner pos slot).map g := by
  simp only [corner, cornerSticker, sticker_recolored, Corner.map]

theorem corners_recolored (s : Facelets n) :
    (s.recolored g).corners pos = (s.corners pos).map (Corner.map g) := by
  rw [corners, corners, List.map_map]
  exact List.map_congr_left fun slot _ => corner_recolored s slot

theorem center_recolored (s : Facelets n) (face : Face) :
    (s.recolored g).center pos face = g (s.center pos face) := sticker_recolored s face _ _

end Facelets

/-! ## Different colors that stay different -/

theorem forall_mem_map_iff (inj : Function.Injective g) {xs ys : List Char} :
    (∀ c, c ∈ xs.map g ↔ c ∈ ys.map g) ↔ ∀ c, c ∈ xs ↔ c ∈ ys := by
  constructor
  · intro same c
    rw [← List.mem_map_of_injective inj, same, List.mem_map_of_injective inj]
  · intro same c
    simp only [List.mem_map, same]

namespace Corner

variable {α β : Type}

theorem map_injective {f : α → β} (inj : Function.Injective f) :
    Function.Injective (Corner.map f) := by
  rintro ⟨i, j, k⟩ ⟨x, y, z⟩ h
  simpa [map, inj.eq_iff] using h

/-- The rounds tell apart what they told apart before. -/
theorem rounds_map_iff [Nonempty α] {f : α → β} (inj : Function.Injective f)
    {corners others : List (Corner α)} :
    rounds (corners.map (Corner.map f)) = rounds (others.map (Corner.map f)) ↔
      rounds corners = rounds others := by
  obtain ⟨back, undoes⟩ := inj.hasLeftInverse
  have undone : ∀ list : List (Corner α),
      (list.map (Corner.map f)).map (Corner.map back) = list := by
    intro list
    rw [List.map_map]
    exact List.map_id'' (fun c => by simp only [Function.comp, map, undoes _]) list
  constructor
  · intro same
    rw [← undone corners, ← undone others]
    exact rounds_congr (F := Corner.map back) (fun _ => rfl) same
  · intro same
    rw [rounds_map, rounds_map, same]

end Corner

theorem Scheme.pieces_recolored (scheme : Scheme) :
    Scheme.pieces (scheme.map g) = scheme.pieces.map (Corner.map g) := by
  simp only [pieces, List.map_map]
  exact List.map_congr_left fun slot _ => by simp only [Function.comp, Corner.map, PerFace.get_map]

namespace Facelets

variable {s : Facelets n} {pos : 0 < n} {scheme : Scheme}

theorem balanced_recolored_iff (inj : Function.Injective g) :
    (s.recolored g).Balanced ↔ s.Balanced := by
  have colors : (s.stickers.map g).toFinset = s.stickers.toFinset.image g := by
    ext c
    simp
  simp only [Balanced, stickers_recolored, colors, Finset.card_image_of_injective _ inj,
    List.forall_mem_map, List.count_map_of_injective _ _ inj]

theorem center_recolored_injective_iff (inj : Function.Injective g) :
    Function.Injective ((s.recolored g).center pos) ↔ Function.Injective (s.center pos) := by
  simp only [Function.Injective, center_recolored, inj.eq_iff]

theorem corner_recolored_eq_iff (inj : Function.Injective g) {slot : Corner Face} :
    slot.map (scheme.map g).get = (s.recolored g).corner pos slot ↔
      slot.map scheme.get = s.corner pos slot := by
  have there : slot.map (scheme.map g).get = (slot.map scheme.get).map g := by
    simp only [Corner.map, PerFace.get_map]
  rw [corner_recolored, there, (map_injective inj).eq_iff]

theorem centersFace_recolored_iff (inj : Function.Injective g) {face : Face} :
    (s.recolored g).CentersFace pos (scheme.map g) face ↔ s.CentersFace pos scheme face := by
  simp only [CentersFace, PerFace.get_map, center_recolored, inj.eq_iff]

theorem follows_recolored_iff (inj : Function.Injective g) :
    (s.recolored g).Follows pos (scheme.map g) ↔ s.Follows pos scheme := by
  have distinct : (scheme.map g).toList.Nodup ↔ scheme.toList.Nodup := by
    rw [PerFace.toList_map, List.nodup_map_iff inj]
  have colors : (∀ c, c ∈ (scheme.map g).toList ↔ c ∈ (s.recolored g).stickers) ↔
      ∀ c, c ∈ scheme.toList ↔ c ∈ s.stickers := by
    rw [PerFace.toList_map, stickers_recolored, forall_mem_map_iff inj]
  have pieces : rounds ((s.recolored g).corners pos) = rounds (Scheme.pieces (scheme.map g)) ↔
      rounds (s.corners pos) = rounds scheme.pieces := by
    rw [corners_recolored, Scheme.pieces_recolored, rounds_map_iff inj]
  have centers : ∀ face, (s.recolored g).CentersFace pos (scheme.map g) face ↔
      s.CentersFace pos scheme face := fun _ => centersFace_recolored_iff inj
  constructor
  · intro h
    exact ⟨distinct.1 h.distinct, colors.1 h.colors, pieces.1 h.pieces,
      fun odd face => (centers face).1 (h.centers odd face)⟩
  · intro h
    exact ⟨distinct.2 h.distinct, colors.2 h.colors, pieces.2 h.pieces,
      fun odd face => (centers face).2 (h.centers odd face)⟩

/-- A scheme has no colors but those that are there. -/
theorem Follows.exists_eq_map (h : (s.recolored g).Follows pos scheme) :
    ∃ before : Scheme, scheme = before.map g := by
  have old : ∀ face, ∃ c, g c = scheme.get face := by
    intro face
    have there := (h.colors (scheme.get face)).1 (PerFace.mem_toList_iff.2 ⟨face, rfl⟩)
    rw [stickers_recolored] at there
    obtain ⟨c, -, hc⟩ := List.mem_map.1 there
    exact ⟨c, hc⟩
  choose before hbefore using old
  refine ⟨.ofFn before, PerFace.ext_get fun face => ?_⟩
  rw [PerFace.get_map, PerFace.get_ofFn, hbefore]

end Facelets

/-! ## Layouts -/

namespace Layout

variable {layout : Layout} {size : Nat} {scheme : Scheme}

/-- Every sticker that is there in the color that is put in the place of its own. -/
def recolored (g : Char → Char) (layout : Layout) : Layout :=
  layout.map (Option.map (List.map (List.map g)))

theorem recolored_toLayout (s : Facelets size) :
    s.toLayout.recolored g = (s.recolored g).toLayout := by
  refine PerFace.ext_get fun face => ?_
  simp [recolored, Facelets.toLayout, Facelets.recolored, Grid.toRows_recolored]

theorem square_recolored_iff {face : Face} :
    (layout.recolored g).Square size face ↔ layout.Square size face := by
  have rows : ∀ rows, SquareRows size (rows.map (List.map g)) ↔ SquareRows size rows := by
    intro rows
    simp only [SquareRows, List.length_map, List.forall_mem_map]
  simp only [Square, recolored, PerFace.get_map, Option.map_eq_some_iff]
  constructor
  · rintro ⟨_, ⟨old, there, rfl⟩, square⟩
    exact ⟨old, there, (rows old).1 square⟩
  · rintro ⟨old, there, square⟩
    exact ⟨_, ⟨old, there, rfl⟩, (rows old).2 square⟩

theorem exists_toLayout_recolored_iff :
    (∃ s : Facelets size, layout.recolored g = s.toLayout) ↔
      ∃ s : Facelets size, layout = s.toLayout := by
  rw [exists_eq_toLayout_iff, exists_eq_toLayout_iff]
  exact forall_congr' fun _ => square_recolored_iff

/-- As long as different colors stay different, what is found stays the same but for them. -/
theorem validate_recolored_eq_ok_iff (inj : Function.Injective g) :
    (layout.recolored g).validate size = .ok (scheme.map g) ↔
      layout.validate size = .ok scheme := by
  have onStickers : ∀ (s : Facelets size) (two_le : 2 ≤ size), (s.toLayout.recolored g).validate
      size = .ok (scheme.map g) ↔ s.toLayout.validate size = .ok scheme := by
    intro s two_le
    have pos : 0 < size := by omega
    rw [recolored_toLayout, validate_toLayout_eq_ok_iff _ two_le pos,
      validate_toLayout_eq_ok_iff _ two_le pos]
    simp only [Facelets.balanced_recolored_iff inj, Facelets.center_recolored_injective_iff inj,
      Facelets.follows_recolored_iff inj, Facelets.corner_recolored_eq_iff inj]
  constructor
  · intro found
    obtain ⟨two_le, there⟩ := exists_toLayout_of_validate found
    obtain ⟨s, rfl⟩ := exists_toLayout_recolored_iff.1 there
    exact (onStickers s two_le).1 found
  · intro found
    obtain ⟨two_le, s, rfl⟩ := exists_toLayout_of_validate found
    exact (onStickers s two_le).2 found

/-- The scheme that is found has the new colors in the places of old ones. -/
theorem exists_eq_map_of_validate_recolored {found : Scheme}
    (h : (layout.recolored g).validate size = .ok found) :
    ∃ scheme : Scheme, found = scheme.map g := by
  obtain ⟨two_le, there⟩ := exists_toLayout_of_validate h
  obtain ⟨s, rfl⟩ := exists_toLayout_recolored_iff.1 there
  have pos : 0 < size := by omega
  rw [recolored_toLayout, validate_toLayout_eq_ok_iff _ two_le pos] at h
  exact h.2.1.exists_eq_map

end Layout

namespace Cube

/-- A cube in other colors makes the same moves, and refuses an algorithm for the same move. -/
theorem apply_recolored {c d : Cube n} (same : d.state = c.state.recolored g) (a : Algorithm) :
    (d.apply a).map Cube.state = (c.apply a).map fun e => e.state.recolored g := by
  unfold apply
  cases found : a.find? fun m => n ≤ m.width with
  | some m => rfl
  | none =>
    have fits : ∀ m ∈ a, m.width < n := by
      intro m hm
      simpa using List.find?_eq_none.1 found m hm
    have moved := (Facelets.Composed.makeAll fits).recolored (g := g) c.state
    simp only [Except.map, same, moved]

end Cube

/-- Nothing depends on what the colors are. Stickers may be given other colors before an
algorithm or after it. With different colors for different ones, the validator finds the
same scheme in the new colors as it finds in the old ones, or finds none in either. -/
theorem blind_to_colors (g : Char → Char) :
    (∀ {n : Nat} (s : Facelets n) (a : Algorithm), (∀ m ∈ a, m.width < n) →
      (s.recolored g).makeAll a = (s.makeAll a).recolored g) ∧
    (∀ {n : Nat} (c d : Cube n), d.state = c.state.recolored g → ∀ a : Algorithm,
      (d.apply a).map Cube.state = (c.apply a).map fun e => e.state.recolored g) ∧
    (Function.Injective g → ∀ (layout : Layout) (size : Nat),
      (∀ scheme : Scheme, (layout.recolored g).validate size = .ok (scheme.map g) ↔
        layout.validate size = .ok scheme) ∧
      ∀ found : Scheme, (layout.recolored g).validate size = .ok found →
        ∃ scheme : Scheme, found = scheme.map g) := by
  refine ⟨?_, ?_, ?_⟩
  · intro n s a fits
    exact (Facelets.Composed.makeAll fits).recolored s
  · intro n c d same a
    exact Cube.apply_recolored same a
  · intro inj layout size
    exact ⟨fun _ => Layout.validate_recolored_eq_ok_iff inj,
      fun _ => Layout.exists_eq_map_of_validate_recolored⟩

/-- White and yellow in each other's place, which turns their order around. -/
def swapped : Char → Char := Equiv.swap 'w' 'y'

def Cube.small : Cube 2 :=
  ⟨standard.colors, .solved 2 standard.colors, .solved 2 standard.colors, Nat.le_refl 2,
    standard.distinct⟩

/-- A small cube turned at its right, which brings its front to the top of the corner URF. -/
theorem blind_to_colors_swapped :
    let right : Move := .single (.outer .r) .clockwise
    let turned := Cube.small.state.make right
    let scheme : Scheme := ⟨'g', 'y', 'r', 'w', 'o', 'b'⟩
    Function.Injective swapped ∧ right.width < 2 ∧
    (Cube.small.state.recolored swapped).makeAll [right] = turned.recolored swapped ∧
    ({ Cube.small with state := Cube.small.state.recolored swapped }.apply [right]).map Cube.state =
      .ok (turned.recolored swapped) ∧
    turned.toLayout.validate 2 = .ok scheme ∧
    (turned.toLayout.recolored swapped).validate 2 = .ok (scheme.map swapped) ∧
    ∃ old : Scheme, scheme.map swapped = old.map swapped := by
  intro right turned scheme
  obtain ⟨moved, applied, validated⟩ := blind_to_colors swapped
  have injective : Function.Injective swapped := (Equiv.swap 'w' 'y').injective
  have fits : ∀ m ∈ [right], m.width < 2 := List.forall_mem_singleton.2 (by decide)
  have before : turned.toLayout.validate 2 = .ok scheme := by decide +kernel
  obtain ⟨same, old⟩ := validated injective turned.toLayout 2
  have after := (same scheme).2 before
  refine ⟨injective, fits _ List.mem_cons_self, moved _ _ fits, ?_, before, after, old _ after⟩
  rw [applied Cube.small _ rfl, Cube.apply_eq_of_fits fits]
  rfl

end Twisty
