import Twisty.Proofs.SchemeRecovery
import Twisty.Proofs.Shape
import Twisty.Proofs.Spot

/-! What the validator decides. Stickers follow a scheme if their corners are the pieces
of the scheme and their opposite centers have opposite colors. If they follow any scheme
at all, they follow the one that is read off the corner URF, and the validator finds
it. -/

namespace Twisty

open Corner

/-- A list that is as long as one without repeats has the same members as often if it has
no other members, and none of them twice. -/
theorem perm_iff_of_nodup {α : Type} {xs ys : List α} (distinct : ys.Nodup)
    (long : xs.length = ys.length) : xs.Perm ys ↔ xs.Nodup ∧ ∀ x ∈ xs, x ∈ ys := by
  refine ⟨?_, ?_⟩
  · intro h
    exact ⟨h.nodup_iff.2 distinct, fun x hx => h.mem_iff.1 hx⟩
  · intro h
    obtain ⟨nodup, sub⟩ := h
    exact (List.subperm_of_subset nodup sub).perm_of_length_le (Nat.le_of_eq long.symm)

namespace Facelets

variable {n : Nat} {s : Facelets n} {pos : 0 < n} {scheme : Scheme}

/-- What the eight slots show. -/
def corners (s : Facelets n) (pos : 0 < n) : List (Corner Char) := slots.map (s.corner pos)

/-- Whether a center and the one facing it have colors that are opposite in a scheme. -/
def CentersFace (s : Facelets n) (pos : 0 < n) (scheme : Scheme) (face : Face) : Prop :=
  ∃ home, scheme.get home = s.center pos face ∧
    scheme.get home.opposite = s.center pos face.opposite

theorem CentersFace.opposite {face : Face} (h : s.CentersFace pos scheme face) :
    s.CentersFace pos scheme face.opposite := by
  obtain ⟨home, hc, ho⟩ := h
  refine ⟨home.opposite, ho, ?_⟩
  rw [Face.opposite_opposite, Face.opposite_opposite, hc]

/-- The colors of a scheme are those that occur, its pieces are what the corners show,
each of them once, and on an odd cube its opposites are at opposite centers. -/
structure Follows (s : Facelets n) (pos : 0 < n) (scheme : Scheme) : Prop where
  distinct : scheme.toList.Nodup
  colors : ∀ c, c ∈ scheme.toList ↔ c ∈ s.stickers
  pieces : rounds (s.corners pos) = rounds scheme.pieces
  centers : n % 2 = 1 → ∀ face, s.CentersFace pos scheme face

/-- A scheme is as good as the cube turned as a whole. -/
theorem Follows.spun (h : s.Follows pos scheme) (t : Spin) :
    s.Follows pos (scheme.spun t) where
  distinct := PerFace.nodup_spun h.distinct t
  colors c := by rw [PerFace.mem_toList_spun, h.colors]
  pieces := by rw [Scheme.rounds_pieces_spun, h.pieces]
  centers odd face := by
    obtain ⟨home, hc, ho⟩ := h.centers odd face
    obtain ⟨now, rfl⟩ := t.source_surjective home
    refine ⟨now, ?_, ?_⟩
    · rw [PerFace.get_spun, hc]
    · rw [PerFace.get_spun, t.source_opposite, ho]

/-- Of the schemes that stickers follow, one is read off the corner URF. -/
theorem Follows.exists_front (h : s.Follows pos scheme) :
    ∃ t : Spin, urf.map (scheme.spun t).get = s.corner pos urf := by
  refine Scheme.exists_spun_of_round ?_
  rw [← h.pieces, mem_rounds]
  exact ⟨_, List.mem_map_of_mem urf_mem_slots, rfl⟩

theorem sticker_mem (s : Facelets n) (face : Face) (i j : Fin n) :
    s.sticker face i j ∈ s.stickers := by
  rw [stickers_eq_map_shown]
  exact List.mem_map.2 ⟨⟨face, i, j⟩, Spot.mem_all _, rfl⟩

end Facelets

namespace Scheme

variable {scheme : Scheme}

theorem faceOf?_eq_some_iff (distinct : scheme.toList.Nodup) {color : Char} {face : Face} :
    scheme.faceOf? color = some face ↔ scheme.get face = color := by
  refine ⟨?_, ?_⟩
  · exact PerFace.get_of_faceOf?
  · rintro rfl
    cases found : scheme.faceOf? (scheme.get face) with
    | none =>
      have h := List.find?_eq_none.1 found face (Face.mem_all face)
      simp at h
    | some other =>
      rw [PerFace.nodup_toList_iff.1 distinct (PerFace.get_of_faceOf? found)]

theorem opposite?_eq_some_iff (distinct : scheme.toList.Nodup) {color facing : Char} :
    scheme.opposite? color = some facing ↔
      ∃ home, scheme.get home = color ∧ scheme.get home.opposite = facing := by
  simp only [opposite?, Option.map_eq_some_iff, faceOf?_eq_some_iff distinct]

end Scheme

namespace Shaped

variable {n : Nat} {c : Shaped n} {scheme : Scheme}

/-! ## The single checks -/

theorem checkCenters_eq_ok_iff (distinct : scheme.toList.Nodup) :
    c.checkCenters scheme = .ok () ↔ ∀ face, c.state.CentersFace c.pos scheme face := by
  have agree : ∀ face : Face, scheme.opposite? (c.state.center c.pos face) =
      some (c.state.center c.pos face.opposite) ↔ c.state.CentersFace c.pos scheme face :=
    fun _ => Scheme.opposite?_eq_some_iff distinct
  rw [checkCenters]
  cases found : [Face.u, .f, .r].find? fun face =>
    scheme.opposite? (c.state.center c.pos face) ≠
      some (c.state.center c.pos face.opposite) with
  | some face =>
    simp only [reduceCtorEq, false_iff]
    intro all
    have h := List.find?_some found
    rw [decide_eq_true_eq] at h
    exact h ((agree face).2 (all face))
  | none =>
    simp only [true_iff]
    have near : ∀ face ∈ [Face.u, .f, .r], c.state.CentersFace c.pos scheme face := by
      intro face hface
      have h := List.find?_eq_none.1 found face hface
      rw [← agree]
      simpa using h
    obtain ⟨hu, hf, hr, -⟩ := by simpa only [List.forall_mem_cons] using near
    exact Face.forall_of_corner (fun _ h => h.opposite) hu hr hf

/-- Slots are fitted if each shows a piece, no two the same, and none one used before. -/
theorem fitPieces_eq_ok_iff {pieces : List (Corner Char)} (distinct : (pieces.map round).Nodup)
    (rest : List (Corner Face)) {used : List (Corner Char)} (sub : ∀ p ∈ used, p ∈ pieces) :
    c.fitPieces pieces used rest = .ok () ↔
      ((rest.map (c.state.corner c.pos)).map round).Nodup ∧
        ∀ r ∈ (rest.map (c.state.corner c.pos)).map round,
          r ∈ pieces.map round ∧ r ∉ used.map round := by
  induction rest generalizing used with
  | nil => simp [fitPieces]
  | cons slot rest ih =>
    rw [fitPieces, List.map_cons, List.map_cons, List.forall_mem_cons, List.nodup_cons]
    cases found : pieces.find? fun piece => (c.state.corner c.pos slot).SameRound piece with
    | none =>
      simp only [reduceCtorEq, false_iff]
      intro h
      obtain ⟨piece, hp, hr⟩ := List.mem_map.1 h.2.1.1
      have hn := List.find?_eq_none.1 found piece hp
      exact hn (by simpa using round_eq_iff.1 hr.symm)
    | some piece =>
      have hp := List.mem_of_find?_eq_some found
      have hr : (c.state.corner c.pos slot).round = piece.round :=
        round_eq_iff.2 (by simpa using List.find?_some found)
      have again : piece.round ∈ used.map round ↔ piece ∈ used := by
        refine ⟨?_, ?_⟩
        · intro h
          obtain ⟨p, hu, e⟩ := List.mem_map.1 h
          rwa [← List.inj_on_of_nodup_map distinct (sub p hu) hp e]
        · exact List.mem_map_of_mem
      rw [hr, again]
      by_cases hu : piece ∈ used
      · simp only [hu, if_true, reduceCtorEq, false_iff]
        intro h
        exact h.2.1.2 trivial
      · have sub' : ∀ p ∈ piece :: used, p ∈ pieces := by
          intro p h
          rcases List.mem_cons.1 h with e | h
          · exact e ▸ hp
          · exact sub p h
        simp only [hu, if_false]
        rw [ih sub']
        refine ⟨?_, ?_⟩
        · intro h
          obtain ⟨nodup, all⟩ := h
          refine ⟨⟨fun hm => (all _ hm).2 List.mem_cons_self, nodup⟩,
            ⟨List.mem_map_of_mem hp, not_false⟩, fun r hm => ⟨(all r hm).1, fun h => ?_⟩⟩
          exact (all r hm).2 (List.mem_cons_of_mem _ h)
        · intro h
          obtain ⟨⟨fresh, nodup⟩, _, all⟩ := h
          refine ⟨nodup, fun r hm => ⟨(all r hm).1, fun h => ?_⟩⟩
          rcases List.mem_cons.1 h with e | h
          · exact fresh (e ▸ hm)
          · exact (all r hm).2 h

theorem fitPieces_slots_eq_ok_iff (distinct : scheme.toList.Nodup) :
    c.fitPieces scheme.pieces [] slots = .ok () ↔
      rounds (c.state.corners c.pos) = rounds scheme.pieces := by
  have nodup := Scheme.nodup_rounds distinct
  rw [fitPieces_eq_ok_iff nodup slots (fun p h => absurd h List.not_mem_nil), rounds, rounds,
    Multiset.coe_eq_coe, perm_iff_of_nodup nodup (by simp [Facelets.corners, Scheme.pieces])]
  simp [Facelets.corners]

/-! ## The scheme -/

theorem scheme_eq_ok (h : c.state.Follows c.pos scheme)
    (front : urf.map scheme.get = c.state.corner c.pos urf) : c.scheme = .ok scheme := by
  have opposite := fun face => Scheme.findOpposite_eq_ok h.distinct
    (Palette.nodup_ofStickers c.state.stickers)
    (fun color => Palette.mem_ofStickers.trans (h.colors color).symm) h.pieces face
  have hd : Scheme.findOpposite (Palette.ofStickers c.state.stickers) c.corners scheme.u =
      .ok scheme.d := opposite .u
  have hl : Scheme.findOpposite (Palette.ofStickers c.state.stickers) c.corners scheme.r =
      .ok scheme.l := opposite .r
  have hb : Scheme.findOpposite (Palette.ofStickers c.state.stickers) c.corners scheme.f =
      .ok scheme.b := opposite .f
  have hfront : c.state.corner c.pos ⟨.u, .r, .f⟩ = ⟨scheme.u, scheme.r, scheme.f⟩ := front.symm
  simp only [Shaped.scheme, hfront, hd, hl, hb]
  exact if_pos h.distinct

theorem mem_stickers_of_findOpposite {shown : List (Corner Char)} {color facing : Char}
    (h : Scheme.findOpposite (Palette.ofStickers c.state.stickers) shown color = .ok facing) :
    facing ∈ c.state.stickers := by
  have hm : facing ∈ [facing] := List.mem_singleton_self facing
  rw [← Scheme.findOpposite_eq_ok_iff.1 h] at hm
  exact Palette.mem_ofStickers.1 (List.mem_filter.1 hm).1

/-- A scheme that is found has six different colors of the layout, and URF shows three. -/
theorem of_scheme_eq_ok (h : c.scheme = .ok scheme) :
    scheme.toList.Nodup ∧ (∀ color ∈ scheme.toList, color ∈ c.state.stickers) ∧
      urf.map scheme.get = c.state.corner c.pos urf := by
  unfold Shaped.scheme at h
  obtain ⟨down, hd, h⟩ := ok_of_bind h
  obtain ⟨left, hl, h⟩ := ok_of_bind h
  obtain ⟨back, hb, h⟩ := ok_of_bind h
  dsimp only at h
  split at h
  · rename_i distinct
    cases h
    refine ⟨distinct, ?_, rfl⟩
    simp only [PerFace.toList, List.forall_mem_cons]
    exact ⟨c.state.sticker_mem _ _ _, c.state.sticker_mem _ _ _, c.state.sticker_mem _ _ _,
      mem_stickers_of_findOpposite hb, mem_stickers_of_findOpposite hl,
      mem_stickers_of_findOpposite hd, fun _ h => absurd h List.not_mem_nil⟩
  · cases h

/-- The validator finds the scheme that the stickers follow and URF shows, and no other. -/
theorem validate_eq_ok_iff (balanced : c.state.Balanced) :
    c.validate = .ok scheme ↔
      c.state.Follows c.pos scheme ∧ urf.map scheme.get = c.state.corner c.pos urf := by
  refine ⟨?_, ?_⟩
  · intro h
    unfold validate at h
    obtain ⟨found, hs, h⟩ := ok_of_bind h
    obtain ⟨_, hp, h⟩ := ok_of_bind h
    obtain ⟨distinct, sub, front⟩ := of_scheme_eq_ok hs
    have hcolors : ∀ color, color ∈ found.toList ↔ color ∈ c.state.stickers := by
      have long : found.toList.length = (Palette.ofStickers c.state.stickers).length := by
        rw [Palette.length_ofStickers, balanced.1]
        rfl
      have all := (perm_iff_of_nodup (Palette.nodup_ofStickers _) long).2
        ⟨distinct, fun color hc => Palette.mem_ofStickers.2 (sub color hc)⟩
      intro color
      rw [all.mem_iff, Palette.mem_ofStickers]
    have hpieces := (fitPieces_slots_eq_ok_iff distinct).1 hp
    by_cases odd : n % 2 = 1
    · rw [if_pos odd] at h
      obtain ⟨_, hc, h⟩ := ok_of_bind h
      cases h
      exact ⟨⟨distinct, hcolors, hpieces, fun _ => (checkCenters_eq_ok_iff distinct).1 hc⟩,
        front⟩
    · rw [if_neg odd] at h
      cases h
      exact ⟨⟨distinct, hcolors, hpieces, fun h => absurd h odd⟩, front⟩
  · intro h
    obtain ⟨follows, front⟩ := h
    have hp := (fitPieces_slots_eq_ok_iff follows.distinct).2 follows.pieces
    unfold validate
    rw [scheme_eq_ok follows front]
    by_cases odd : n % 2 = 1
    · have hc := (checkCenters_eq_ok_iff follows.distinct).2 (follows.centers odd)
      simp only [hp, hc, odd, if_true, bind, Except.bind, pure, Except.pure]
    · simp only [hp, odd, if_false, bind, Except.bind, pure, Except.pure]

end Shaped

namespace Layout

variable {size : Nat}

/-- A layout of six square faces, with six colors on one face's worth of stickers each
and centers, if there are any, that are all different, whose stickers follow a
scheme. -/
def Genuine (layout : Layout) (size : Nat) : Prop :=
  ∃ (s : Facelets size) (pos : 0 < size), 2 ≤ size ∧ layout = s.toLayout ∧ s.Balanced ∧
    (size % 2 = 1 → Function.Injective (s.center pos)) ∧ ∃ scheme, s.Follows pos scheme

theorem validate_toLayout_eq_ok_iff (s : Facelets size) (two_le : 2 ≤ size) (pos : 0 < size)
    (scheme : Scheme) :
    s.toLayout.validate size = .ok scheme ↔
      (s.Balanced ∧ (size % 2 = 1 → Function.Injective (s.center pos))) ∧
        s.Follows pos scheme ∧ urf.map scheme.get = s.corner pos urf := by
  refine ⟨?_, ?_⟩
  · intro h
    obtain ⟨c, hshape, hval⟩ := ok_of_bind h
    obtain ⟨same, balanced, centers⟩ := shape_eq_ok_iff.1 hshape
    obtain rfl := toLayout_injective same
    exact ⟨⟨balanced, centers⟩, (Shaped.validate_eq_ok_iff balanced).1 hval⟩
  · intro h
    obtain ⟨⟨balanced, centers⟩, found⟩ := h
    have hshape : s.toLayout.shape size = .ok ⟨s, two_le⟩ :=
      shape_eq_ok_iff.2 ⟨rfl, balanced, centers⟩
    rw [validate, hshape]
    exact (Shaped.validate_eq_ok_iff (c := ⟨s, two_le⟩) balanced).2 found

theorem exists_toLayout_of_validate {layout : Layout} {scheme : Scheme}
    (h : layout.validate size = .ok scheme) :
    2 ≤ size ∧ ∃ s : Facelets size, layout = s.toLayout := by
  obtain ⟨c, hshape, _⟩ := ok_of_bind h
  exact ⟨c.two_le, c.state, (shape_eq_ok_iff.1 hshape).1⟩

theorem validate_of_assemble_error {layout : Layout} {fault : LayoutFault} (two_le : 2 ≤ size)
    (h : layout.assemble size = .error fault) : layout.validate size = .error fault := by
  rw [validate, shape, dif_pos two_le, h]
  rfl

/-- The validator accepts the genuine layouts and no others. The scheme that it returns
is one that the stickers follow, as URF shows it. A layout without six square faces is
refused as such, and in any other every row and column that can be read is there. -/
theorem validate_decides (layout : Layout) (size : Nat) :
    ((∃ scheme, layout.validate size = .ok scheme) ↔ layout.Genuine size) ∧
    (∀ scheme, layout.validate size = .ok scheme →
      ∃ (s : Facelets size) (pos : 0 < size), layout = s.toLayout ∧ s.Follows pos scheme ∧
        urf.map scheme.get = s.corner pos urf) ∧
    match layout.assemble size with
    | .error fault => 2 ≤ size → layout.validate size = .error fault
    | .ok s => ∀ face (i j : Fin size), layout.sticker? face i j = some (s.sticker face i j) := by
  refine ⟨⟨?_, ?_⟩, ?_, ?_⟩
  · intro h
    obtain ⟨scheme, h⟩ := h
    obtain ⟨two_le, s, rfl⟩ := exists_toLayout_of_validate h
    have pos : 0 < size := by omega
    obtain ⟨⟨balanced, centers⟩, follows, _⟩ :=
      (validate_toLayout_eq_ok_iff s two_le pos scheme).1 h
    exact ⟨s, pos, two_le, rfl, balanced, centers, scheme, follows⟩
  · intro h
    obtain ⟨s, pos, two_le, rfl, balanced, centers, scheme, follows⟩ := h
    obtain ⟨t, front⟩ := follows.exists_front
    exact ⟨scheme.spun t, (validate_toLayout_eq_ok_iff s two_le pos _).2
      ⟨⟨balanced, centers⟩, follows.spun t, front⟩⟩
  · intro scheme h
    obtain ⟨two_le, s, rfl⟩ := exists_toLayout_of_validate h
    have pos : 0 < size := by omega
    exact ⟨s, pos, rfl, ((validate_toLayout_eq_ok_iff s two_le pos scheme).1 h).2⟩
  · cases h : layout.assemble size with
    | error fault => exact fun two_le => validate_of_assemble_error two_le h
    | ok s =>
      obtain rfl := assemble_eq_ok_iff.1 h
      exact sticker?_toLayout s

/-- A corner may be twisted where it is. Its colors name the three faces all the same. -/
theorem genuine_twisted_corner : Layout.Genuine (Facelets.toLayout (n := 2)
    ⟨.ofFn fun i j => if i = 1 ∧ j = 1 then 'r' else 'w',
      .ofFn fun i j => if i = 0 ∧ j = 1 then 'w' else 'g',
      .ofFn fun i j => if i = 0 ∧ j = 0 then 'g' else 'r',
      .filled 2 'b', .filled 2 'o', .filled 2 'y'⟩) 2 :=
  (validate_decides _ 2).1.1 ⟨⟨'r', 'w', 'g', 'y', 'b', 'o'⟩, by decide⟩

end Layout

end Twisty
