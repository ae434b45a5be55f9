import Twisty.Facelets.Turn
import Twisty.Proofs.Spot

/-! Moves as rigid motions. An operation on stickers carries along a motion of places if
the sticker of every spot is found again at the spot to whose place the motion takes it.
The two primitive motions do, and so does what is composed of them. -/

namespace Twisty

namespace Spot

variable {n : Nat}

/-- The spot that a sticker comes to when the whole cube is turned. -/
def rotated : Axis → Spot n → Spot n
  | .x, ⟨.u, i, j⟩ => ⟨.b, i.rev, j.rev⟩ | .x, ⟨.d, i, j⟩ => ⟨.f, i, j⟩
  | .x, ⟨.r, i, j⟩ => ⟨.r, j, i.rev⟩ | .x, ⟨.l, i, j⟩ => ⟨.l, j.rev, i⟩
  | .x, ⟨.f, i, j⟩ => ⟨.u, i, j⟩ | .x, ⟨.b, i, j⟩ => ⟨.d, i.rev, j.rev⟩
  | .y, ⟨.u, i, j⟩ => ⟨.u, j, i.rev⟩ | .y, ⟨.d, i, j⟩ => ⟨.d, j.rev, i⟩
  | .y, ⟨.r, i, j⟩ => ⟨.f, i, j⟩ | .y, ⟨.l, i, j⟩ => ⟨.b, i, j⟩
  | .y, ⟨.f, i, j⟩ => ⟨.l, i, j⟩ | .y, ⟨.b, i, j⟩ => ⟨.r, i, j⟩
  | .z, ⟨.u, i, j⟩ => ⟨.r, j, i.rev⟩ | .z, ⟨.d, i, j⟩ => ⟨.l, j, i.rev⟩
  | .z, ⟨.r, i, j⟩ => ⟨.d, j, i.rev⟩ | .z, ⟨.l, i, j⟩ => ⟨.u, j, i.rev⟩
  | .z, ⟨.f, i, j⟩ => ⟨.f, j, i.rev⟩ | .z, ⟨.b, i, j⟩ => ⟨.b, j.rev, i⟩

theorem place_rotated (axis : Axis) (p : Spot n) :
    (p.rotated axis).place = p.place.turned axis.face := by
  obtain ⟨face, i, j⟩ := p
  cases axis <;> cases face <;>
    simp [rotated, place, rightward, Place.turned, Point.turned, Point.add, Point.scale,
      Point.cross, Point.dot, Face.normal, Face.above, Axis.face, Fin.val_rev] <;> omega

/-- The spot that a sticker comes to when the top layers are turned. -/
def topTurned (layers : Nat) : Spot n → Spot n
  | ⟨.u, i, j⟩ => ⟨.u, j, i.rev⟩
  | ⟨.f, i, j⟩ => ⟨if i.val < layers then .l else .f, i, j⟩
  | ⟨.r, i, j⟩ => ⟨if i.val < layers then .f else .r, i, j⟩
  | ⟨.b, i, j⟩ => ⟨if i.val < layers then .r else .b, i, j⟩
  | ⟨.l, i, j⟩ => ⟨if i.val < layers then .b else .l, i, j⟩
  | ⟨.d, i, j⟩ => ⟨.d, i, j⟩

theorem place_topTurned {layers : Nat} (one_le : 1 ≤ layers) (lt : layers < n) (p : Spot n) :
    (p.topTurned layers).place = (Letter.outer .u).carry layers n p.place := by
  obtain ⟨face, i, j⟩ := p
  have hi := i.isLt
  have takes : (Letter.outer .u).Takes layers n (place ⟨face, i, j⟩) ↔
      face = .u ∨ (face ≠ .d ∧ i.val < layers) := by
    cases face <;>
      simp [Letter.Takes, Letter.pivot, Place.depth, place, rightward, Point.add,
        Point.scale, Point.cross, Point.dot, Face.normal, Face.above] <;> omega
  by_cases h : i.val < layers <;> cases face <;>
    simp [Letter.carry, takes, h, topTurned] <;>
    simp [place, rightward, Letter.pivot, Place.turned, Point.turned, Point.add,
      Point.scale, Point.cross, Point.dot, Face.normal, Face.above, Fin.val_rev] <;> omega

end Spot

namespace Facelets

variable {n : Nat}

theorem shown_rotate (axis : Axis) (s : Facelets n) (p : Spot n) :
    (s.rotate axis).shown (p.rotated axis) = s.shown p := by
  obtain ⟨face, i, j⟩ := p
  cases axis <;> cases face <;>
    simp [shown, sticker, Spot.rotated, rotate, PerFace.get]

theorem shown_turnTop (layers : Nat) (s : Facelets n) (p : Spot n) :
    (s.turnTop layers).shown (p.topTurned layers) = s.shown p := by
  obtain ⟨face, i, j⟩ := p
  by_cases h : i.val < layers <;> cases face <;>
    simp [shown, sticker, Spot.topTurned, turnTop, PerFace.get, h]

/-! ## Carrying along a motion -/

def Carries (motion : Place → Place) (op : Facelets n → Facelets n) : Prop :=
  ∀ p : Spot n, ∃ q : Spot n, q.place = motion p.place ∧ ∀ s, (op s).shown q = s.shown p

theorem carries_rotate (axis : Axis) :
    Carries (n := n) (Place.turned axis.face) (rotate axis) :=
  fun p => ⟨p.rotated axis, p.place_rotated axis, fun s => shown_rotate axis s p⟩

theorem carries_turnTop {layers : Nat} (one_le : 1 ≤ layers) (lt : layers < n) :
    Carries (n := n) ((Letter.outer .u).carry layers n) (turnTop layers) :=
  fun p => ⟨p.topTurned layers, Spot.place_topTurned one_le lt p,
    fun s => shown_turnTop layers s p⟩

namespace Carries

variable {motion after : Place → Place} {op next : Facelets n → Facelets n}

theorem comp (h : Carries motion op) (k : Carries after next) :
    Carries (fun p => after (motion p)) (fun s => next (op s)) := by
  intro p
  obtain ⟨q, hq, hs⟩ := h p
  obtain ⟨r, hr, ht⟩ := k q
  exact ⟨r, by rw [hr, hq], fun s => by rw [ht, hs]⟩

/-- Only what a motion does to the surface matters. -/
theorem congr (h : Carries motion op) (same : ∀ p : Spot n, motion p.place = after p.place) :
    Carries after op := by
  intro p
  obtain ⟨q, hq, hs⟩ := h p
  exact ⟨q, by rw [hq, same], hs⟩

theorem act (h : Carries motion op) (amount : Amount) :
    Carries (amount.act motion) (amount.act op) := by
  cases amount with
  | clockwise => exact h
  | half => exact h.comp h
  | counterclockwise => exact (h.comp h).comp h

/-- Where no two places are brought together, the spots are permuted. -/
theorem exists_bijective (h : Carries motion op) (inj : Function.Injective motion) :
    ∃ σ : Spot n → Spot n, Function.Bijective σ ∧ (∀ p, (σ p).place = motion p.place) ∧
      ∀ s p, (op s).shown (σ p) = s.shown p := by
  choose σ hplace hshown using h
  have hσ : Function.Injective σ := by
    intro p q hpq
    refine Spot.place_injective (inj ?_)
    rw [← hplace p, ← hplace q, hpq]
  exact ⟨σ, ⟨hσ, Spot.surjective_of_injective hσ⟩, hplace, fun s p => hshown p s⟩

/-- A motion tells everything about an operation that carries along it. -/
theorem eq_iff (h : Carries motion op) (inj : Function.Injective motion) (s t : Facelets n) :
    op s = t ↔
      ∀ p : Spot n, ∃ q : Spot n, q.place = motion p.place ∧ t.shown q = s.shown p := by
  refine ⟨?_, ?_⟩
  · intro e p
    obtain ⟨q, hq, hs⟩ := h p
    exact ⟨q, hq, by rw [← e, hs]⟩
  · intro carried
    obtain ⟨σ, hσ, hplace, hshown⟩ := h.exists_bijective inj
    refine ext_shown fun q => ?_
    obtain ⟨p, rfl⟩ := hσ.2 q
    obtain ⟨r, hr, ht⟩ := carried p
    have hrq : r = σ p := Spot.place_injective (hr.trans (hplace p).symm)
    rw [hshown, ← ht, hrq]

theorem unique (h : Carries motion op) (k : Carries motion next)
    (inj : Function.Injective motion) (s : Facelets n) : op s = next s :=
  (h.eq_iff inj s (next s)).2 ((k.eq_iff inj s (next s)).1 rfl)

theorem stickers_perm (h : Carries motion op) (inj : Function.Injective motion)
    (s : Facelets n) : (op s).stickers.Perm s.stickers := by
  obtain ⟨σ, hσ, _, hshown⟩ := h.exists_bijective inj
  have moved : s.stickers = ((Spot.all n).map σ).map (op s).shown := by
    rw [List.map_map, stickers_eq_map_shown]
    exact List.map_congr_left fun p _ => (hshown s p).symm
  rw [moved, stickers_eq_map_shown]
  exact ((Spot.map_all_perm hσ.1).map _).symm

end Carries

/-! ## Composed motions -/

theorem carries_still : Carries (n := n) (fun p => p) fun s => s := fun p => ⟨p, rfl, fun _ => rfl⟩

theorem carries_rotateBack (axis : Axis) :
    Carries (n := n) (Place.turned axis.face.opposite) (rotateBack axis) :=
  ((carries_rotate axis).act .counterclockwise).congr fun p =>
    Place.turned_three axis.face p.place

theorem carries_toTop (face : Face) : Carries (n := n) (Place.toTop face) (toTop face) := by
  cases face with
  | u => exact carries_still
  | d => exact (carries_rotate .x).comp (carries_rotate .x)
  | l => exact carries_rotate .z
  | r => exact carries_rotateBack .z
  | f => exact carries_rotate .x
  | b => exact carries_rotateBack .x

theorem carries_fromTop (face : Face) :
    Carries (n := n) (Place.fromTop face) (fromTop face) := by
  cases face with
  | u => exact carries_still
  | d => exact (carries_rotate .x).comp (carries_rotate .x)
  | l => exact carries_rotateBack .z
  | r => exact carries_rotate .z
  | f => exact carries_rotateBack .x
  | b => exact carries_rotate .x

theorem carries_turnFace {layers : Nat} (one_le : 1 ≤ layers) (lt : layers < n) (face : Face) :
    Carries (n := n) ((Letter.outer face).carry layers n) (turnFace face layers) :=
  (((carries_toTop face).comp (carries_turnTop one_le lt)).comp (carries_fromTop face)).congr
    fun p => Place.fromTop_carry_toTop layers n face p.place

theorem carries_turnFaceBack (two_le : 2 ≤ n) (face : Face) :
    Carries (n := n) (Place.layerTurned n face face.opposite) (turnFaceBack face) := by
  refine ((carries_turnFace (Nat.le_refl 1) two_le face).act .counterclockwise).congr ?_
  intro p
  rw [Letter.act_carry]
  exact if_congr Iff.rfl (Place.turned_three face p.place) rfl

theorem carries_turnThick (two_le : 2 ≤ n) (width : Nat) (face : Face) :
    Carries (n := n) ((Letter.thick face).carry width n) (turnThick face) := by
  have turn := carries_turnFace (n := n) (Nat.le_refl 1) two_le
  have far := fun p : Spot n => p.carry_opposite_turned width face
  cases face with
  | u => exact ((carries_rotate .y).comp (turn .d)).congr far
  | d => exact ((carries_rotateBack .y).comp (turn .u)).congr far
  | l => exact ((carries_rotateBack .x).comp (turn .r)).congr far
  | r => exact ((carries_rotate .x).comp (turn .l)).congr far
  | f => exact ((carries_rotate .z).comp (turn .b)).congr far
  | b => exact ((carries_rotateBack .z).comp (turn .f)).congr far

theorem carries_turnSlice (two_le : 2 ≤ n) (width : Nat) (slice : Slice) :
    Carries (n := n) ((Letter.slice slice).carry width n) (turnSlice slice) := by
  have turn := carries_turnFace (n := n) (Nat.le_refl 1) two_le
  have back := carries_turnFaceBack two_le
  have sides := fun p : Spot n => p.turned_sides two_le width slice
  cases slice with
  | m =>
    have h := ((back .l).comp (turn .r)).comp (carries_rotateBack .x)
    exact h.congr fun p => (sides p).1
  | e =>
    have h := ((turn .u).comp (back .d)).comp (carries_rotateBack .y)
    exact h.congr fun p => (sides p).2
  | s =>
    have h := ((back .f).comp (turn .b)).comp (carries_rotate .z)
    exact h.congr fun p => (sides p).1

/-- A clockwise move carries along its motion, whatever its letter. -/
theorem carries_quarterTurn {width : Nat} (one_le : 1 ≤ width) (lt : width < n)
    (letter : Letter) :
    Carries (n := n) (letter.carry width n) (quarterTurn letter width) := by
  cases letter with
  | outer face => exact carries_turnFace one_le lt face
  | thick face => exact carries_turnThick (by omega) width face
  | rotation axis => exact (carries_rotate axis).congr fun p => (if_pos trivial).symm
  | slice between => exact carries_turnSlice (by omega) width between

theorem carries_make {m : Move} (fits : m.width < n) :
    Carries (n := n) (m.carry n) (make m) := by
  refine ((carries_quarterTurn m.width_pos fits m.letter).act m.amount).congr ?_
  intro p
  exact Letter.act_carry m.letter m.width n m.amount p.place

/-- All layers but the far one are the `n - 1` layers nearest to the face. -/
theorem turnThick_eq_turnFace (two_le : 2 ≤ n) (face : Face) (s : Facelets n) :
    turnThick face s = turnFace face (n - 1) s := by
  have same : ∀ p : Spot n, (Letter.outer face).carry (n - 1) n p.place =
      (Letter.thick face).carry 1 n p.place := by
    intro p
    refine if_congr ?_ rfl rfl
    simp only [Letter.Takes, Letter.pivot]
    omega
  have wide := carries_turnFace (n := n) (show 1 ≤ n - 1 by omega) (by omega) face
  exact (carries_turnThick two_le 1 face).unique (wide.congr same)
    ((Letter.thick face).carry_injective 1 n) s

/-- The cube moves as the solid one does: what a move makes of a state is the one state
that shows the stickers of the move's layers turned about its axis, and all others
where they were. A thick turn is an outer one of `n - 1` layers. -/
theorem make_eq_iff_carried {m : Move} (fits : m.width < n) (s : Facelets n) :
    (∀ t, make m s = t ↔
      ∀ p : Spot n, ∃ q : Spot n, q.place = m.carry n p.place ∧ t.shown q = s.shown p) ∧
    ∀ face, m.letter = .thick face → make m s = m.amount.act (turnFace face (n - 1)) s := by
  refine ⟨(carries_make fits).eq_iff (m.carry_injective n) s, ?_⟩
  intro face hl
  have one_le := m.width_pos
  have thick : ∀ r : Facelets n, quarterTurn m.letter m.width r = turnFace face (n - 1) r := by
    intro r
    rw [hl]
    exact turnThick_eq_turnFace (by omega) face r
  rw [make, funext thick]

/-- Three of four layers turned back at R: U shows what was at B, but not along L. -/
theorem make_thick_carries :
    (Move.single (.thick .r) .counterclockwise).width < 4 ∧
    (∀ p : Spot 4, ∃ q : Spot 4,
      q.place = (Move.single (.thick .r) .counterclockwise).carry 4 p.place ∧
      shown ⟨.ofFn fun _ j => if j = 0 then 'w' else 'b',
        .ofFn fun _ j => if j = 0 then 'g' else 'w', .filled 4 'r',
        .ofFn fun _ j => if j = 3 then 'b' else 'y', .filled 4 'o',
        .ofFn fun _ j => if j = 0 then 'y' else 'g'⟩ q =
        (solved 4 ⟨'w', 'g', 'r', 'b', 'o', 'y'⟩).shown p) ∧
    make (Move.single (.thick .r) .counterclockwise) (solved 4 ⟨'w', 'g', 'r', 'b', 'o', 'y'⟩) =
      Amount.counterclockwise.act (turnFace .r 3) (solved 4 ⟨'w', 'g', 'r', 'b', 'o', 'y'⟩) :=
  ⟨by decide, ((make_eq_iff_carried (by decide) _).1 _).1 (by decide),
    (make_eq_iff_carried (by decide) _).2 .r rfl⟩

end Facelets

end Twisty
