import Twisty.PerFace
import Twisty.Proofs.Space
import Mathlib.Data.Fintype.EquivFin

/-! The ways in which a whole cube can be turned. A spin tells for each face which face
comes to lie there. It keeps the angles between faces, so opposite faces stay opposite,
and it keeps their handedness, so no spin is a mirror image. There are 24, and quarter
turns lead to all of them. -/

namespace Twisty

instance : Fintype Face := ⟨⟨Face.all, by decide⟩, Face.mem_all⟩

/-- The volume that three directions span, negative if they are left-handed. -/
def Point.triple (p q r : Point) : Int := p.dot (q.cross r)

theorem Point.triple_turned (face : Face) (p q r : Point) :
    triple (turned face p) (turned face q) (turned face r) = triple p q r := by
  cases face <;> simp [triple, turned, add, scale, dot, cross, Face.normal] <;> ring

theorem Face.dot_normal_eq_one_iff {face other : Face} :
    face.normal.dot other.normal = 1 ↔ face = other := by
  cases face <;> cases other <;> decide

theorem Face.dot_normal_eq_neg_one_iff {face other : Face} :
    face.normal.dot other.normal = -1 ↔ face = other.opposite := by
  cases face <;> cases other <;> decide

/-- What passes to opposite faces holds of all if it holds of three that meet. -/
theorem Face.forall_of_corner {holds : Face → Prop}
    (far : ∀ face, holds face → holds face.opposite) (hu : holds .u) (hr : holds .r)
    (hf : holds .f) : ∀ face, holds face
  | .u => hu
  | .r => hr
  | .f => hf
  | .d => far .u hu
  | .l => far .r hr
  | .b => far .f hf

/-- The face that a quarter turn brings to where another is. -/
def Axis.source : Axis → Face → Face
  | x, .u => .f | x, .f => .d | x, .d => .b | x, .b => .u | x, face => face
  | y, .f => .r | y, .r => .b | y, .b => .l | y, .l => .f | y, face => face
  | z, .u => .l | z, .l => .d | z, .d => .r | z, .r => .u | z, face => face

theorem Axis.turned_source (axis : Axis) (face : Face) :
    (axis.source face).normal.turned axis.face = face.normal := by
  cases axis <;> cases face <;> rfl

structure Spin where
  source : Face → Face
  rigid : ∀ i j, (source i).normal.dot (source j).normal = i.normal.dot j.normal
  proper : ∀ i j k, Point.triple (source i).normal (source j).normal (source k).normal =
    Point.triple i.normal j.normal k.normal

namespace Spin

theorem ext_of {s t : Spin} (h : ∀ face, s.source face = t.source face) : s = t := by
  have he : s.source = t.source := funext h
  cases s; cases t
  cases he
  rfl

theorem source_injective (s : Spin) : Function.Injective s.source := by
  intro face other h
  rw [← Face.dot_normal_eq_one_iff, ← s.rigid face other, h, Face.dot_normal_eq_one_iff]

theorem source_surjective (s : Spin) : Function.Surjective s.source :=
  Finite.injective_iff_surjective.1 s.source_injective

theorem source_opposite (s : Spin) (face : Face) :
    s.source face.opposite = (s.source face).opposite := by
  rw [← Face.dot_normal_eq_neg_one_iff, s.rigid, Face.dot_normal_eq_neg_one_iff]

/-- Three faces that meet at a corner tell how the cube lies. -/
theorem eq_of_corner {s t : Spin} (hu : s.source .u = t.source .u)
    (hr : s.source .r = t.source .r) (hf : s.source .f = t.source .f) : s = t := by
  have far : ∀ face : Face, s.source face = t.source face →
      s.source face.opposite = t.source face.opposite := by
    intro face h
    rw [source_opposite, source_opposite, h]
  exact ext_of (Face.forall_of_corner far hu hr hf)

/-! ## Composing quarter turns -/

def still : Spin := ⟨id, fun _ _ => rfl, fun _ _ _ => rfl⟩

def quarter (axis : Axis) : Spin where
  source := axis.source
  rigid i j := by
    rw [← Point.dot_turned axis.face, axis.turned_source, axis.turned_source]
  proper i j k := by
    rw [← Point.triple_turned axis.face, axis.turned_source, axis.turned_source,
      axis.turned_source]

/-- One spin, then another. -/
def andThen (s t : Spin) : Spin where
  source face := s.source (t.source face)
  rigid i j := by rw [s.rigid, t.rigid]
  proper i j k := by rw [s.proper, t.proper]

/-- Quarter turns one after another. -/
def ofTurns : List Axis → Spin
  | [] => still
  | axis :: rest => (quarter axis).andThen (ofTurns rest)

/-- A face is brought to the top, and then the cube is turned about it. -/
def turnLists : List (List Axis) :=
  [[], [.x], [.x, .x], [.x, .x, .x], [.z], [.z, .z, .z]].flatMap fun first =>
    [[], [.y], [.y, .y], [.y, .y, .y]].map (first ++ ·)

/-- Three faces that lie to each other as U, R and F do can be brought there. -/
theorem exists_turns_of_triple : ∀ i j k : Face,
    Point.triple i.normal j.normal k.normal =
      Point.triple Face.u.normal Face.r.normal Face.f.normal →
    ∃ turns ∈ turnLists, (ofTurns turns).source .u = i ∧ (ofTurns turns).source .r = j ∧
      (ofTurns turns).source .f = k := by
  decide +kernel

def all : List Spin := turnLists.map ofTurns

theorem length_all : all.length = 24 := rfl

theorem mem_all (s : Spin) : s ∈ all := by
  obtain ⟨turns, hm, hu, hr, hf⟩ := exists_turns_of_triple _ _ _ (s.proper .u .r .f)
  exact List.mem_map.2 ⟨turns, hm, eq_of_corner hu hr hf⟩

theorem nodup_all : all.Nodup := by
  have corners : (all.map fun s => (s.source .u, s.source .r, s.source .f)).Nodup := by
    decide +kernel
  exact corners.of_map _

theorem exists_turns (s : Spin) : ∃ turns, s = ofTurns turns := by
  obtain ⟨turns, _, h⟩ := List.mem_map.1 s.mem_all
  exact ⟨turns, h.symm⟩

end Spin

end Twisty
