import Twisty.Face

/-! One thing for each face: colors, grids, or the rows of a layout that may lack
some faces. -/

namespace Twisty

structure PerFace (α : Type) where
  u : α
  f : α
  r : α
  b : α
  l : α
  d : α
deriving DecidableEq

namespace PerFace

variable {α β : Type}

def get (p : PerFace α) : Face → α
  | .u => p.u | .f => p.f | .r => p.r | .b => p.b | .l => p.l | .d => p.d

def ofFn (g : Face → α) : PerFace α := ⟨g .u, g .f, g .r, g .b, g .l, g .d⟩

@[simp] theorem get_ofFn (g : Face → α) (face : Face) : (ofFn g).get face = g face := by
  cases face <;> rfl

theorem ext_get {p q : PerFace α} (h : ∀ face, p.get face = q.get face) : p = q := by
  cases p; cases q
  have hu := h .u; have hf := h .f; have hr := h .r
  have hb := h .b; have hl := h .l; have hd := h .d
  simp_all [get]

@[simp] theorem ofFn_get (p : PerFace α) : ofFn p.get = p := ext_get fun face => by simp

def map (g : α → β) (p : PerFace α) : PerFace β :=
  ⟨g p.u, g p.f, g p.r, g p.b, g p.l, g p.d⟩

@[simp] theorem get_map (g : α → β) (p : PerFace α) (face : Face) :
    (p.map g).get face = g (p.get face) := by
  cases face <;> rfl

/-- The six things in U F R B L D order. -/
def toList (p : PerFace α) : List α := [p.u, p.f, p.r, p.b, p.l, p.d]

theorem toList_eq_map_get (p : PerFace α) : p.toList = Face.all.map p.get := rfl

@[simp] theorem toList_map (g : α → β) (p : PerFace α) : (p.map g).toList = p.toList.map g :=
  rfl

theorem mem_toList_iff {p : PerFace α} {x : α} : x ∈ p.toList ↔ ∃ face, p.get face = x := by
  simp only [toList_eq_map_get, List.mem_map]
  exact ⟨fun ⟨face, _, h⟩ => ⟨face, h⟩, fun ⟨face, h⟩ => ⟨face, Face.mem_all face, h⟩⟩

def ofList? : List α → Option (PerFace α)
  | [u, f, r, b, l, d] => some ⟨u, f, r, b, l, d⟩
  | _ => none

theorem ofList?_eq_some_iff {xs : List α} {p : PerFace α} :
    ofList? xs = some p ↔ p.toList = xs := by
  constructor
  · intro h
    unfold ofList? at h
    split at h <;> cases h
    rfl
  · rintro rfl; rfl

theorem ofList?_toList (p : PerFace α) : ofList? p.toList = some p := rfl

/-- The first face that holds a given thing. -/
def faceOf? [DecidableEq α] (p : PerFace α) (x : α) : Option Face :=
  Face.all.find? fun face => p.get face = x

theorem get_of_faceOf? [DecidableEq α] {p : PerFace α} {x : α} {face : Face}
    (h : p.faceOf? x = some face) : p.get face = x := by
  simpa using List.find?_some h

end PerFace

end Twisty
