import Twisty.Facelets.Basic

/-! Corners. A corner is three things met in clockwise order around it, seen from
outside the cube: faces for a slot, colors for what a slot shows. Where the round
starts does not matter. -/

namespace Twisty

structure Corner (α : Type) where
  first : α
  second : α
  third : α
deriving DecidableEq

namespace Corner

variable {α β : Type}

def toList (c : Corner α) : List α := [c.first, c.second, c.third]

def map (g : α → β) (c : Corner α) : Corner β := ⟨g c.first, g c.second, g c.third⟩

/-- The same corner, with the round begun one later. -/
def turned (c : Corner α) : Corner α := ⟨c.second, c.third, c.first⟩

@[simp] theorem turned_turned_turned (c : Corner α) : c.turned.turned.turned = c := rfl

@[simp] theorem map_turned (g : α → β) (c : Corner α) : (c.turned).map g = (c.map g).turned :=
  rfl

/-- Whether two rounds differ only in where they begin. -/
def SameRound (c e : Corner α) : Prop := c = e ∨ c = e.turned ∨ c = e.turned.turned

instance [DecidableEq α] (c e : Corner α) : Decidable (c.SameRound e) :=
  inferInstanceAs (Decidable (_ ∨ _ ∨ _))

theorem SameRound.refl (c : Corner α) : c.SameRound c := Or.inl rfl

theorem SameRound.symm {c e : Corner α} (h : c.SameRound e) : e.SameRound c := by
  rcases h with h | h | h
  · exact Or.inl h.symm
  · exact Or.inr (Or.inr (by rw [h, turned_turned_turned]))
  · exact Or.inr (Or.inl (by rw [h, turned_turned_turned]))

/-- The eight corners of a cube by the faces that meet there. -/
def slots : List (Corner Face) :=
  [⟨.u, .r, .f⟩, ⟨.u, .f, .l⟩, ⟨.u, .l, .b⟩, ⟨.u, .b, .r⟩,
   ⟨.d, .f, .r⟩, ⟨.d, .l, .f⟩, ⟨.d, .b, .l⟩, ⟨.d, .r, .b⟩]

/-- The letters of a slot's faces. -/
def name (slot : Corner Face) : String := String.ofList (slot.toList.map Face.letter)

end Corner

namespace Facelets

variable {n : Nat}

/-- The first or the last line of a grid. -/
def edgeLine (pos : 0 < n) (atStart : Bool) : Fin n :=
  if atStart then ⟨0, pos⟩ else ⟨n - 1, by omega⟩

/-- The sticker on a face at the corner it shares with two others. -/
def cornerSticker (s : Facelets n) (pos : 0 < n) (face other another : Face) : Char :=
  s.sticker face
    (edgeLine pos (other = face.above ∨ another = face.above))
    (edgeLine pos (other = face.leftward ∨ another = face.leftward))

/-- What a slot shows. -/
def corner (s : Facelets n) (pos : 0 < n) (slot : Corner Face) : Corner Char :=
  ⟨s.cornerSticker pos slot.first slot.second slot.third,
   s.cornerSticker pos slot.second slot.third slot.first,
   s.cornerSticker pos slot.third slot.first slot.second⟩

theorem corner_turned (s : Facelets n) (pos : 0 < n) (slot : Corner Face) :
    s.corner pos slot.turned = (s.corner pos slot).turned := rfl

/-- The sticker in the middle of a face. -/
def center (s : Facelets n) (pos : 0 < n) (face : Face) : Char :=
  s.sticker face ⟨n / 2, by omega⟩ ⟨n / 2, by omega⟩

end Facelets

end Twisty
