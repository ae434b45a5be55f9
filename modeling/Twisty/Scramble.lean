import Twisty.Cube.Basic
import Twisty.Source

/-! Scrambling. Moves are drawn from a source of random numbers; one is passed over if it
has the letter of the move before it, or if it leads to a state whose hash was met
already in this scramble, the start included. -/

namespace Twisty

namespace Scramble

/-- The faces to turn. The smallest cube needs three of them only. -/
def faces (n : Nat) : List Face := if n = 2 then [.r, .u, .f] else Face.all

/-- The moves to draw from, all clockwise: an outer face up to half the cube deep. -/
def choices (n : Nat) : List Move :=
  (List.range (max 1 (n / 2))).flatMap fun k =>
    (faces n).filterMap fun face => Move.new? (k + 1) (.outer face) .clockwise

theorem mem_choices_iff {n : Nat} {m : Move} :
    m ∈ choices n ↔ m.width ≤ max 1 (n / 2) ∧ (∃ face ∈ faces n, m.letter = .outer face) ∧
      m.amount = .clockwise := by
  simp only [choices, List.mem_flatMap, List.mem_range, List.mem_filterMap, Move.new?_eq_some_iff]
  constructor
  · intro h
    obtain ⟨k, hk, face, hf, hw, hl, ha⟩ := h
    exact ⟨by omega, ⟨face, hf, hl⟩, ha⟩
  · intro h
    obtain ⟨hw, ⟨face, hf, hl⟩, ha⟩ := h
    have := m.width_pos
    exact ⟨m.width - 1, by omega, face, hf, by omega, hl, ha⟩

theorem up_mem_choices (n : Nat) : Move.single (.outer .u) .clockwise ∈ choices n := by
  refine mem_choices_iff.2 ⟨Nat.le_max_left _ _, ⟨.u, ?_, rfl⟩, rfl⟩
  unfold faces
  split <;> decide

theorem choices_pos (n : Nat) : 0 < (choices n).length :=
  List.length_pos_of_mem (up_mem_choices n)

/-- Every move drawn from fits a cube of two layers or more. -/
theorem width_lt_of_mem_choices {n : Nat} {m : Move} (two_le : 2 ≤ n) (h : m ∈ choices n) :
    m.width < n := by
  obtain ⟨hw, _⟩ := mem_choices_iff.1 h
  omega

theorem width_lt_of_clockwise_mem {n : Nat} {m : Move} (two_le : 2 ≤ n)
    (h : m.withAmount .clockwise ∈ choices n) : m.width < n :=
  width_lt_of_mem_choices (m := m.withAmount .clockwise) two_le h

/-- How far a move turns does not matter once it is made clockwise. -/
theorem clockwise_mem_choices {n : Nat} {m : Move} (h : m ∈ choices n) (amount : Amount) :
    (m.withAmount amount).withAmount .clockwise ∈ choices n := by
  obtain ⟨width, letter, -⟩ := mem_choices_iff.1 h
  exact mem_choices_iff.2 ⟨width, letter, rfl⟩

section Draws

variable {G : Type} [Source G]

/-- Draws first how far to turn, then what to turn. -/
def drawMove (n : Nat) (g : G) : Move × G :=
  let amount := Source.pick Amount.all (by decide) g
  let move := Source.pick (choices n) (choices_pos n) amount.2
  (move.1.withAmount amount.1, move.2)

theorem drawMove_mem {n : Nat} (g : G) :
    (drawMove n g).1.withAmount .clockwise ∈ choices n :=
  clockwise_mem_choices (Source.pick_mem _ _ _) _

def drawMoves (n : Nat) : Nat → G → List Move × G
  | 0, g => ([], g)
  | count + 1, g =>
    let move := drawMove n g
    let rest := drawMoves n count move.2
    (move.1 :: rest.1, rest.2)

end Draws

end Scramble

/-- A scramble under way: the state reached, what is left to draw from, and latest first
the hashes met and the moves made. -/
structure Scramble (n : Nat) (G : Type) where
  state : Facelets n
  generator : G
  met : List UInt64
  moves : List Move

namespace Scramble

variable {n : Nat} {G : Type} [Hashable (Facelets n)]

def start (state : Facelets n) (generator : G) : Scramble n G :=
  ⟨state, generator, [hash state], []⟩

/-- Makes a move, or passes it over. One that leads back to a state met before is made and
undone. -/
def offer (p : Scramble n G) (m : Move) (g : G) : Scramble n G :=
  if p.moves.head?.map Move.letter = some m.letter then { p with generator := g }
  else
    let turned := p.state.make m
    if hash turned ∈ p.met then { p with state := turned.make m.inverse, generator := g }
    else ⟨turned, g, hash turned :: p.met, m :: p.moves⟩

variable [Source G]

/-- Draws one move and offers it. -/
def step (p : Scramble n G) : Scramble n G :=
  let drawn := drawMove n p.generator
  p.offer drawn.1 drawn.2

theorem exists_offer_eq_step (p : Scramble n G) :
    ∃ m g, m.withAmount .clockwise ∈ choices n ∧ p.step = p.offer m g :=
  ⟨(drawMove n p.generator).1, (drawMove n p.generator).2, drawMove_mem p.generator, rfl⟩

/-- Steps until enough moves are made. There may never be enough, and then it has no
result. -/
def run (length : Nat) (p : Scramble n G) : Option (Scramble n G) :=
  if length ≤ p.moves.length then some p
  else by
    apply run
    · exact length
    · exact p.step
partial_fixpoint

theorem run_eq (length : Nat) (p : Scramble n G) :
    p.run length = if length ≤ p.moves.length then some p else p.step.run length := by
  rw [run]

/-- What every step keeps while there are too few moves holds at the end, and then there
are enough. -/
theorem of_run {P : Scramble n G → Prop} {length : Nat} {p q : Scramble n G}
    (keeps : ∀ p, p.moves.length < length → P p → P p.step) (start : P p)
    (h : p.run length = some q) : P q ∧ length ≤ q.moves.length := by
  -- By induction on the approximations of the loop.
  refine run.partial_correctness length (fun p q => P p → P q ∧ length ≤ q.moves.length)
    (fun loop ih p q h start => ?_) p q h start
  split at h
  · rename_i enough
    cases h
    exact ⟨start, enough⟩
  · rename_i more
    exact ih p.step q h (keeps p (Nat.lt_of_not_le more) start)

/-- Scrambles have eight moves for each layer unless something else is said. -/
def usualLength (n : Nat) : Nat := 8 * n

end Scramble

namespace Cube

variable {n : Nat} {G : Type} [Source G] [Hashable (Facelets n)]

/-- Scrambles a cube. The result is the moves made, the cube reached and what is left to
draw from, unless there are never enough moves. -/
def scramble (c : Cube n) (g : G) (length : Option Nat) : Option (Algorithm × Cube n × G) :=
  ((Scramble.start c.state g).run (length.getD (Scramble.usualLength n))).map fun p =>
    (p.moves.reverse, { c with state := p.state }, p.generator)

end Cube

end Twisty
