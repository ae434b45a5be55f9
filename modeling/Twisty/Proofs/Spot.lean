import Twisty.Facelets.Basic
import Twisty.Proofs.Space
import Mathlib.Data.List.FinRange
import Mathlib.Data.List.Perm.Subperm

/-! The spots on the surface of a cube, one for each sticker, and their places. A face
is laid out as seen from outside: its rows run down from the face above it, and its
columns run to the right of whoever looks at it. -/

namespace Twisty

structure Spot (n : Nat) where
  face : Face
  row : Fin n
  col : Fin n
deriving DecidableEq

namespace Spot

variable {n : Nat}

/-- The direction in which the columns of a face run. -/
def rightward (face : Face) : Point := face.above.normal.cross face.normal

/-- The outermost layers lie `n - 1` away from the center of the cube. -/
def place (p : Spot n) : Place :=
  ⟨((p.face.normal.scale (n - 1)).add
      (p.face.above.normal.scale (n - 1 - 2 * p.row))).add
      ((rightward p.face).scale (2 * p.col - (n - 1))),
    p.face.normal⟩

theorem ext_of {p q : Spot n} (hf : p.face = q.face) (hr : p.row = q.row)
    (hc : p.col = q.col) : p = q := by
  cases p; cases q
  cases hf; cases hr; cases hc
  rfl

theorem normal_injective {face other : Face} (h : face.normal = other.normal) :
    face = other := by
  revert h
  cases face <;> cases other <;> decide

theorem place_injective : Function.Injective (place : Spot n → Place) := by
  intro p q h
  obtain ⟨face, i, j⟩ := p
  obtain ⟨other, k, l⟩ := q
  have hface : face = other := normal_injective (congrArg Place.facing h)
  subst hface
  have hcubie := congrArg Place.cubie h
  have hx := congrArg Point.x hcubie
  have hy := congrArg Point.y hcubie
  have hz := congrArg Point.z hcubie
  refine ext_of rfl (Fin.ext ?_) (Fin.ext ?_) <;>
    cases face <;>
      simp [place, rightward, Point.add, Point.scale, Point.cross, Face.normal,
        Face.above] at hx hy hz ⊢ <;> omega

/-- A cubie on the surface lies in one of `n` layers below each face. -/
theorem layer_place (face : Face) (p : Spot n) :
    ∃ d : Nat, d < n ∧ face.normal.dot p.place.cubie = n - 1 - 2 * (d : Int) := by
  obtain ⟨own, i, j⟩ := p
  have hi := i.isLt
  have hj := j.isLt
  refine ⟨(((n - 1 - face.normal.dot (place ⟨own, i, j⟩).cubie) / 2 : Int)).toNat, ?_, ?_⟩ <;>
    cases face <;> cases own <;>
      simp [place, rightward, Point.add, Point.scale, Point.cross, Point.dot, Face.normal,
        Face.above] <;> omega

theorem depth_place_opposite (face : Face) (p : Spot n) :
    p.place.depth n face.opposite = n - 1 - p.place.depth n face := by
  obtain ⟨d, hd, h⟩ := layer_place face p
  simp only [Place.depth, Point.dot_opposite, h]
  omega

/-- Rows are counted from the face above. -/
theorem depth_place_above (p : Spot n) : p.place.depth n p.face.above = p.row := by
  obtain ⟨face, i, j⟩ := p
  cases face <;>
    simp [Place.depth, place, rightward, Point.add, Point.scale, Point.cross, Point.dot,
      Face.normal, Face.above]

/-- Columns are counted from the face to the left. -/
theorem depth_place_leftward (p : Spot n) : p.place.depth n p.face.leftward = p.col := by
  obtain ⟨face, i, j⟩ := p
  cases face <;>
    simp [Place.depth, place, rightward, Point.add, Point.scale, Point.cross, Point.dot,
      Face.normal, Face.above, Face.leftward]

theorem depth_place_face (p : Spot n) : p.place.depth n p.face = 0 := by
  obtain ⟨face, i, j⟩ := p
  cases face <;>
    simp [Place.depth, place, rightward, Point.add, Point.scale, Point.cross, Point.dot,
      Face.normal, Face.above]

/-- The four faces beside one lie along the edges of its grid. -/
theorem eq_of_beside {side pivot : Face} (beside : side.axis ≠ pivot.axis) :
    pivot = side.above ∨ pivot = side.leftward ∨
      pivot = side.above.opposite ∨ pivot = side.leftward.opposite := by
  revert beside
  cases side <;> cases pivot <;> decide

/-- A face beside another has a sticker in every layer below it. -/
theorem exists_depth_place {pivot side : Face} (beside : side.axis ≠ pivot.axis) {d : Nat}
    (lt : d < n) : ∃ p : Spot n, p.face = side ∧ p.place.depth n pivot = d := by
  let i : Fin n := ⟨d, lt⟩
  have far : (n : Int) - 1 - i.rev.val = d := by
    rw [Fin.val_rev]
    show (n : Int) - 1 - (n - (d + 1) : Nat) = d
    omega
  rcases eq_of_beside beside with rfl | rfl | rfl | rfl
  · exact ⟨⟨side, i, i⟩, rfl, depth_place_above ⟨side, i, i⟩⟩
  · exact ⟨⟨side, i, i⟩, rfl, depth_place_leftward ⟨side, i, i⟩⟩
  · refine ⟨⟨side, i.rev, i⟩, rfl, ?_⟩
    rw [depth_place_opposite, depth_place_above ⟨side, i.rev, i⟩, far]
  · refine ⟨⟨side, i, i.rev⟩, rfl, ?_⟩
    rw [depth_place_opposite, depth_place_leftward ⟨side, i, i.rev⟩, far]

/-- To turn all layers but the far one is to turn the cube and then the far one back. -/
theorem carry_opposite_turned (width : Nat) (face : Face) (p : Spot n) :
    (Letter.outer face.opposite).carry 1 n (p.place.turned face) =
      (Letter.thick face).carry width n p.place := by
  have far := p.depth_place_opposite face
  have kept : (p.place.turned face).depth n face.opposite = p.place.depth n face.opposite := by
    have h := Place.depth_turned_opposite n face.opposite p.place
    rwa [Face.opposite_opposite] at h
  have deepest : (Letter.outer face.opposite).Takes 1 n (p.place.turned face) ↔
      ¬ (Letter.thick face).Takes width n p.place := by
    simp only [Letter.Takes, Letter.pivot, kept, far]
    omega
  by_cases h : (Letter.thick face).Takes width n p.place
  · rw [Letter.carry_of_takes h, Letter.carry_of_not_takes (not_not.2 h ∘ deepest.1)]
    rfl
  · rw [Letter.carry_of_not_takes h, Letter.carry_of_takes (deepest.2 h)]
    exact Place.turned_opposite_turned face p.place

/-- To turn the layers between two faces is to turn both outer layers the other way and
then the cube. The outer layers may be turned in any order. -/
theorem turned_sides (two_le : 2 ≤ n) (width : Nat) (slice : Slice) (p : Spot n) :
    let face := slice.face
    let near := Place.layerTurned n face face.opposite
    let far := Place.layerTurned n face.opposite face.opposite
    (far (near p.place)).turned face = (Letter.slice slice).carry width n p.place ∧
      (near (far p.place)).turned face = (Letter.slice slice).carry width n p.place := by
  intro face near far
  have between := p.depth_place_opposite face
  have kept := Place.depth_turned_opposite n face p.place
  have kept' := Place.depth_turned n face.opposite p.place
  have inside : (Letter.slice slice).Takes width n p.place ↔
      ¬ p.place.depth n face < 1 ∧ ¬ p.place.depth n face.opposite < 1 := by
    simp only [Letter.Takes, Letter.pivot, between, face]
    omega
  by_cases hn : p.place.depth n face < 1
  · have hf : ¬ p.place.depth n face.opposite < 1 := by omega
    have out : ¬ (Letter.slice slice).Takes width n p.place := fun h => (inside.1 h).1 hn
    have hnear : near p.place = p.place.turned face.opposite := Place.layerTurned_of_lt hn
    have hfar : far p.place = p.place := Place.layerTurned_of_not_lt hf
    have hfar' : far (p.place.turned face.opposite) = p.place.turned face.opposite :=
      Place.layerTurned_of_not_lt (kept' ▸ hf)
    rw [Letter.carry_of_not_takes out, hfar, hnear, hfar', Place.turned_turned_opposite]
    exact ⟨rfl, rfl⟩
  · have hnear : near p.place = p.place := Place.layerTurned_of_not_lt hn
    by_cases hf : p.place.depth n face.opposite < 1
    · have out : ¬ (Letter.slice slice).Takes width n p.place := fun h => (inside.1 h).2 hf
      have hfar : far p.place = p.place.turned face.opposite := Place.layerTurned_of_lt hf
      have hnear' : near (p.place.turned face.opposite) = p.place.turned face.opposite :=
        Place.layerTurned_of_not_lt (kept ▸ hn)
      rw [Letter.carry_of_not_takes out, hnear, hfar, hnear', Place.turned_turned_opposite]
      exact ⟨rfl, rfl⟩
    · have hfar : far p.place = p.place := Place.layerTurned_of_not_lt hf
      rw [Letter.carry_of_takes (inside.2 ⟨hn, hf⟩), hnear, hfar, hnear]
      exact ⟨rfl, rfl⟩

/-! ## All spots -/

/-- Row by row, face by face. -/
def all (n : Nat) : List (Spot n) :=
  Face.all.flatMap fun face =>
    (List.finRange n).flatMap fun i => (List.finRange n).map fun j => ⟨face, i, j⟩

theorem mem_all (p : Spot n) : p ∈ all n := by
  simp only [all, List.mem_flatMap, List.mem_map, List.mem_finRange, true_and]
  exact ⟨p.face, Face.mem_all _, p.row, p.col, rfl⟩

theorem nodup_all : (all n).Nodup := by
  have rows : ∀ face : Face, ((List.finRange n).flatMap fun i =>
      (List.finRange n).map fun j => (⟨face, i, j⟩ : Spot n)).Nodup := by
    intro face
    rw [List.nodup_flatMap]
    refine ⟨fun i _ => (List.nodup_finRange n).map fun j k h => congrArg Spot.col h, ?_⟩
    refine (List.nodup_finRange n).imp fun {i k} hne => ?_
    intro p hp hq
    obtain ⟨j, _, rfl⟩ := List.mem_map.1 hp
    obtain ⟨l, _, h⟩ := List.mem_map.1 hq
    exact hne (congrArg Spot.row h).symm
  rw [all, List.nodup_flatMap]
  refine ⟨fun face _ => rows face, ?_⟩
  refine (show Face.all.Nodup by decide).imp fun {face other} hne => ?_
  intro p hp hq
  simp only [List.mem_flatMap, List.mem_map] at hp hq
  obtain ⟨_, _, _, _, rfl⟩ := hp
  obtain ⟨_, _, _, _, h⟩ := hq
  exact hne (congrArg Spot.face h).symm

/-- Spots that are moved about without two coming together are moved onto all spots. -/
theorem map_all_perm {σ : Spot n → Spot n} (inj : Function.Injective σ) :
    ((all n).map σ).Perm (all n) := by
  have sub : ((all n).map σ).Subperm (all n) :=
    List.subperm_of_subset (nodup_all.map inj) fun p _ => mem_all p
  exact sub.perm_of_length_le (by simp)

theorem surjective_of_injective {σ : Spot n → Spot n} (inj : Function.Injective σ) :
    Function.Surjective σ := by
  intro q
  obtain ⟨p, _, h⟩ := List.mem_map.1 ((map_all_perm inj).mem_iff.2 (mem_all q))
  exact ⟨p, h⟩

end Spot

/-- The rows of a grid, cell by cell. -/
theorem Grid.toRows_eq_map_cell {n : Nat} (g : Grid n) :
    g.toRows = (List.finRange n).map fun i => (List.finRange n).map (g.cell i) := by
  rw [toRows_eq_map_get]
  refine List.map_congr_left fun i _ => List.ext_getElem? fun j => ?_
  by_cases h : j < n
  · rw [getElem?_get_rows g i ⟨j, h⟩]
    simp [h]
  · simp [h]

namespace Facelets

variable {n : Nat}

/-- The sticker on a spot. -/
def shown (s : Facelets n) (p : Spot n) : Char := s.sticker p.face p.row p.col

theorem ext_shown {s t : Facelets n} (same : ∀ p, s.shown p = t.shown p) : s = t :=
  ext_sticker fun face i j => same ⟨face, i, j⟩

theorem stickers_eq_map_shown (s : Facelets n) : s.stickers = (Spot.all n).map s.shown := by
  have grid : ∀ g : Grid n, g.stickers =
      (List.finRange n).flatMap fun i => (List.finRange n).map (g.cell i) := by
    intro g
    rw [Grid.stickers, g.toRows_eq_map_cell, List.flatMap]
  simp only [stickers, PerFace.toList_eq_map_get, List.flatMap_map, grid, Spot.all,
    List.map_flatMap, List.map_map]
  rfl

end Facelets

end Twisty
