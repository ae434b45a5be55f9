import Twisty.Cube.Operation

/-! What moves are made of. Every move is composed of turns of the whole cube and turns
of its top layers, so what holds of these two, and of one motion after another, holds of
all moves. Runs of operations do nothing else, but for a reset. -/

namespace Twisty

namespace Facelets

variable {n : Nat}

inductive Composed : (Facelets n → Facelets n) → Prop
  | still : Composed fun s => s
  | rotate (axis : Axis) : Composed (rotate axis)
  | turnTop {layers : Nat} : 1 ≤ layers → layers < n → Composed (turnTop layers)
  | comp {f g : Facelets n → Facelets n} :
      Composed f → Composed g → Composed fun s => g (f s)

namespace Composed

theorem act {f : Facelets n → Facelets n} (h : Composed f) (amount : Amount) :
    Composed (amount.act f) := by
  cases amount with
  | clockwise => exact h
  | half => exact h.comp h
  | counterclockwise => exact (h.comp h).comp h

theorem rotateBack (axis : Axis) : Composed (n := n) (rotateBack axis) :=
  (rotate axis).act .counterclockwise

theorem toTop (face : Face) : Composed (n := n) (toTop face) := by
  cases face with
  | u => exact still
  | d => exact (rotate .x).comp (rotate .x)
  | l => exact rotate .z
  | r => exact rotateBack .z
  | f => exact rotate .x
  | b => exact rotateBack .x

theorem fromTop (face : Face) : Composed (n := n) (fromTop face) := by
  cases face with
  | u => exact still
  | d => exact (rotate .x).comp (rotate .x)
  | l => exact rotateBack .z
  | r => exact rotate .z
  | f => exact rotateBack .x
  | b => exact rotate .x

theorem turnFace {layers : Nat} (one_le : 1 ≤ layers) (lt : layers < n) (face : Face) :
    Composed (n := n) (turnFace face layers) :=
  ((toTop face).comp (turnTop one_le lt)).comp (fromTop face)

theorem turnThick (two_le : 2 ≤ n) (face : Face) : Composed (n := n) (turnThick face) := by
  have turn := turnFace (n := n) (Nat.le_refl 1) two_le
  cases face with
  | u => exact (rotate .y).comp (turn .d)
  | d => exact (rotateBack .y).comp (turn .u)
  | l => exact (rotateBack .x).comp (turn .r)
  | r => exact (rotate .x).comp (turn .l)
  | f => exact (rotate .z).comp (turn .b)
  | b => exact (rotateBack .z).comp (turn .f)

theorem turnSlice (two_le : 2 ≤ n) (slice : Slice) :
    Composed (n := n) (turnSlice slice) := by
  have turn := turnFace (n := n) (Nat.le_refl 1) two_le
  have back := fun face => (turn face).act .counterclockwise
  cases slice with
  | m => exact ((back .l).comp (turn .r)).comp (rotateBack .x)
  | e => exact ((turn .u).comp (back .d)).comp (rotateBack .y)
  | s => exact ((back .f).comp (turn .b)).comp (rotate .z)

theorem make {m : Move} (fits : m.width < n) : Composed (n := n) (make m) := by
  have one_le := m.width_pos
  have two_le : 2 ≤ n := by omega
  have quarter : Composed (n := n) (quarterTurn m.letter m.width) := by
    cases m.letter with
    | outer face => exact turnFace one_le fits face
    | thick face => exact turnThick two_le face
    | rotation axis => exact rotate axis
    | slice between => exact turnSlice two_le between
  exact quarter.act m.amount

theorem makeAll {moves : List Move} (fits : ∀ m ∈ moves, m.width < n) :
    Composed (n := n) (makeAll moves) := by
  induction moves with
  | nil => exact still
  | cons m rest ih =>
    obtain ⟨hm, hrest⟩ := List.forall_mem_cons.1 fits
    exact (make hm).comp (ih hrest)

end Composed

/-- Whether one state leads to another. -/
def Reaches (s t : Facelets n) : Prop := ∃ f, Composed f ∧ f s = t

theorem Reaches.refl (s : Facelets n) : Reaches s s := ⟨_, .still, rfl⟩

theorem Reaches.trans {s t r : Facelets n} (h : Reaches s t) (k : Reaches t r) :
    Reaches s r := by
  obtain ⟨f, hf, rfl⟩ := h
  obtain ⟨g, hg, rfl⟩ := k
  exact ⟨_, hf.comp hg, rfl⟩

theorem Composed.reaches {f : Facelets n → Facelets n} (h : Composed f) (s : Facelets n) :
    Reaches s (f s) := ⟨f, h, rfl⟩

/-- There is a way back: whatever turned once comes round with three turns more. -/
theorem Reaches.symm {s t : Facelets n} (h : Reaches s t) : Reaches t s := by
  obtain ⟨f, composed, rfl⟩ := h
  induction composed generalizing s with
  | still => exact refl s
  | rotate axis => exact ⟨_, (Composed.rotate axis).act .counterclockwise, rotate_four axis s⟩
  | turnTop one_le lt =>
    exact ⟨_, (Composed.turnTop one_le lt).act .counterclockwise, turnTop_four _ s⟩
  | comp _ _ ihf ihg => exact ihg.trans ihf

end Facelets

open Facelets

namespace Scramble

variable {n : Nat} {G : Type} [Hashable (Facelets n)]

theorem reaches_offer {m : Move} (fits : m.width < n) (p : Scramble n G) (g : G) :
    Reaches p.state (p.offer m g).state := by
  have made := (Composed.make fits).reaches p.state
  unfold offer
  dsimp only
  split
  · exact Reaches.refl _
  · split
    · exact made.trans ((Composed.make (m := m.inverse) fits).reaches _)
    · exact made

variable [Source G]

theorem reaches_step (two_le : 2 ≤ n) (p : Scramble n G) : Reaches p.state p.step.state := by
  obtain ⟨m, g, hm, offered⟩ := p.exists_offer_eq_step
  rw [offered]
  exact reaches_offer (width_lt_of_clockwise_mem two_le hm) p g

theorem reaches_run (two_le : 2 ≤ n) {length : Nat} {p q : Scramble n G}
    (h : p.run length = some q) : Reaches p.state q.state :=
  (of_run (P := fun q => Reaches p.state q.state)
    (fun q _ reached => reached.trans (reaches_step two_le q)) (Reaches.refl _) h).1

end Scramble

namespace Cube

variable {n : Nat}

theorem turnTop_eq_ok {layers : Nat} {c d : Cube n} (h : c.turnTop layers = .ok d) :
    (1 ≤ layers ∧ layers < n) ∧ d = { c with state := c.state.turnTop layers } := by
  unfold turnTop at h
  cases hl : checkLayers n layers with
  | error error => rw [hl] at h; cases h
  | ok _ =>
    rw [hl] at h
    cases h
    exact ⟨checkLayers_eq_ok_iff.1 hl, rfl⟩

theorem turn_eq_ok {m : Move} {c d : Cube n} (h : c.turn m = .ok d) :
    m.width < n ∧ d = { c with state := c.state.make m } := by
  unfold turn at h
  cases hl : checkLayers n m.width with
  | error error => rw [hl] at h; cases h
  | ok _ =>
    rw [hl] at h
    cases h
    exact ⟨(checkLayers_eq_ok_iff.1 hl).2, rfl⟩

theorem turn_eq_of_fits {m : Move} (fits : m.width < n) (c : Cube n) :
    c.turn m = .ok { c with state := c.state.make m } := by
  rw [turn, checkLayers_eq_ok_iff.2 ⟨m.width_pos, fits⟩]
  rfl

theorem apply_eq_ok {a : Algorithm} {c d : Cube n} (h : c.apply a = .ok d) :
    (∀ m ∈ a, m.width < n) ∧ d = { c with state := c.state.makeAll a } := by
  have fits := fits_of_apply h
  rw [apply_eq_of_fits fits] at h
  exact ⟨fits, (Except.ok.inj h).symm⟩

section Operations

variable {G : Type} [Source G] [Hashable (Facelets n)]

/-- What one operation can do: the colors and what the cube was made as stay, and the
stickers are moved about or put back to where they were then. -/
theorem attempt_cases {c d : Cube n} {op : Operation G} (h : c.attempt op = .ok d) :
    d.colors = c.colors ∧ d.original = c.original ∧
      (Reaches c.state d.state ∨ d.state = c.original) := by
  have applied : ∀ {a : Algorithm}, c.apply a = .ok d →
      d.colors = c.colors ∧ d.original = c.original ∧
        (Reaches c.state d.state ∨ d.state = c.original) := by
    intro a h
    obtain ⟨fits, rfl⟩ := apply_eq_ok h
    exact ⟨rfl, rfl, Or.inl ((Composed.makeAll fits).reaches _)⟩
  cases op with
  | turn m =>
    obtain ⟨fits, rfl⟩ := turn_eq_ok h
    exact ⟨rfl, rfl, Or.inl ((Composed.make fits).reaches _)⟩
  | apply a => exact applied h
  | applyText text =>
    unfold attempt applyText at h
    dsimp only at h
    split at h
    · cases h
    · exact applied h
  | turnTop layers =>
    obtain ⟨⟨one_le, lt⟩, rfl⟩ := turnTop_eq_ok h
    exact ⟨rfl, rfl, Or.inl ((Composed.turnTop one_le lt).reaches _)⟩
  | rotate axis =>
    cases h
    exact ⟨rfl, rfl, Or.inl ((Composed.rotate axis).reaches _)⟩
  | reset =>
    cases h
    exact ⟨rfl, rfl, Or.inr rfl⟩
  | scramble g length =>
    cases h
    unfold scramble
    cases ran : (Scramble.start c.state g).run (length.getD (Scramble.usualLength n)) with
    | none => exact ⟨rfl, rfl, Or.inl (Reaches.refl _)⟩
    | some p => exact ⟨rfl, rfl, Or.inl (Scramble.reaches_run c.two_le ran)⟩

/-- An operation that fails does nothing. -/
theorem perform_cases (c : Cube n) (op : Operation G) :
    (c.perform op).1.colors = c.colors ∧ (c.perform op).1.original = c.original ∧
      (Reaches c.state (c.perform op).1.state ∨ (c.perform op).1.state = c.original) := by
  cases h : c.attempt op with
  | error error =>
    rw [perform_of_error h]
    exact ⟨rfl, rfl, Or.inl (Reaches.refl _)⟩
  | ok d =>
    have done : c.perform op = (d, none) := by simp only [perform, h]
    rw [done]
    exact attempt_cases h

/-- What a run of operations begins with may be anything that the original state of the
cube leads to, and then this is so at its end. -/
theorem reaches_performAll {c : Cube n} (start : Reaches c.original c.state)
    (ops : List (Operation G)) :
    (c.performAll ops).colors = c.colors ∧ (c.performAll ops).original = c.original ∧
      Reaches c.original (c.performAll ops).state := by
  induction ops generalizing c with
  | nil => exact ⟨rfl, rfl, start⟩
  | cons op rest ih =>
    obtain ⟨colors, original, moved⟩ := c.perform_cases op
    have next : Reaches (c.perform op).1.original (c.perform op).1.state := by
      rw [original]
      rcases moved with h | h
      · exact start.trans h
      · rw [h]
        exact Reaches.refl _
    obtain ⟨colors', original', moved'⟩ := ih next
    exact ⟨colors'.trans colors, original'.trans original, original ▸ moved'⟩

end Operations

end Cube

end Twisty
