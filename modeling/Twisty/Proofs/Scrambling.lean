import Twisty.Facelets.Fingerprint
import Twisty.Proofs.Undoing
import Mathlib.Data.List.Chain
import Mathlib.Data.List.Infix
import Mathlib.Logic.Function.Iterate

/-! Scrambles. Whatever moves are drawn, and by whatever hash states are told apart, the cube
shows at every turn of the loop what the moves made so far lead to, no state comes twice, and
no letter comes twice in a row. A scramble has no result just when there are never enough
moves. -/

namespace Twisty

open Facelets

namespace Scramble

variable {n : Nat} {G : Type} [Hashable (Facelets n)] {s : Facelets n} {p q : Scramble n G}

/-! ## One candidate -/

/-- A move that is offered is made, or all but the generator is as before. In the second
case it may have been made and undone. -/
theorem offer_cases {m : Move} (fits : m.width < n) (p : Scramble n G) (g : G) :
    p.offer m g = { p with generator := g } ∨
    (p.moves.head?.map Move.letter ≠ some m.letter ∧ hash (p.state.make m) ∉ p.met ∧
      p.offer m g = ⟨p.state.make m, g, hash (p.state.make m) :: p.met, m :: p.moves⟩) := by
  unfold offer
  dsimp only
  split
  · exact Or.inl rfl
  · rename_i other
    split
    · left
      rw [make_inverse_make fits]
    · rename_i new
      exact Or.inr ⟨other, new, rfl⟩

/-! ## The loop -/

/-- Offers moves that are given one after another, until enough are made. -/
def offerUntil (length : Nat) (g : G) (p : Scramble n G) : List Move → Scramble n G
  | [] => p
  | m :: rest =>
    if length ≤ p.moves.length then p else offerUntil length g (p.offer m g) rest

/-- What holds at every turn of the loop: the state is where the moves lead, the hashes met
are those of the states after some of the moves, none of them twice, and moves next to each
other have different letters. -/
structure Sound (s : Facelets n) (p : Scramble n G) : Prop where
  state : makeAll p.moves.reverse s = p.state
  met : p.met = p.moves.tails.map fun made => hash (makeAll made.reverse s)
  fresh : p.met.Nodup
  varied : p.moves.IsChain fun m k => m.letter ≠ k.letter
  drawn : ∀ m ∈ p.moves, m.withAmount .clockwise ∈ choices n

namespace Sound

theorem start (s : Facelets n) (g : G) : Sound s (Scramble.start s g) where
  state := rfl
  met := rfl
  fresh := List.nodup_singleton _
  varied := List.isChain_nil
  drawn := fun _ h => absurd h List.not_mem_nil

theorem offer (h : Sound s p) (two_le : 2 ≤ n) {m : Move}
    (hm : m.withAmount .clockwise ∈ choices n) (g : G) : Sound s (p.offer m g) := by
  rcases offer_cases (width_lt_of_clockwise_mem two_le hm) p g with kept | ⟨other, new, made⟩
  · rw [kept]
    exact ⟨h.state, h.met, h.fresh, h.varied, h.drawn⟩
  · have now : makeAll (m :: p.moves).reverse s = p.state.make m := by
      rw [List.reverse_cons, makeAll_append, h.state]
      rfl
    rw [made]
    refine ⟨now, ?_, List.nodup_cons.2 ⟨new, h.fresh⟩, h.varied.cons fun k hk e => ?_,
      List.forall_mem_cons.2 ⟨hm, h.drawn⟩⟩
    · rw [List.tails_cons, List.map_cons, now, h.met]
    · rw [Option.mem_def.1 hk, Option.map_some, e] at other
      exact other rfl

/-- Whatever is drawn. -/
theorem offerAll (h : Sound s p) (two_le : 2 ≤ n) {candidates : List Move}
    (drawn : ∀ m ∈ candidates, m.withAmount .clockwise ∈ choices n) (g : G) :
    Sound s (candidates.foldl (fun p m => p.offer m g) p) := by
  induction candidates generalizing p with
  | nil => exact h
  | cons m rest ih =>
    obtain ⟨hm, hrest⟩ := List.forall_mem_cons.1 drawn
    exact ih (h.offer two_le hm g) hrest

theorem offerUntil (h : Sound s p) (two_le : 2 ≤ n) {candidates : List Move}
    (drawn : ∀ m ∈ candidates, m.withAmount .clockwise ∈ choices n) (length : Nat) (g : G) :
    Sound s (p.offerUntil length g candidates) := by
  induction candidates generalizing p with
  | nil => exact h
  | cons m rest ih =>
    obtain ⟨hm, hrest⟩ := List.forall_mem_cons.1 drawn
    rw [Scramble.offerUntil]
    split
    · exact h
    · exact ih (h.offer two_le hm g) hrest

variable [Source G]

theorem step (h : Sound s p) (two_le : 2 ≤ n) : Sound s p.step := by
  obtain ⟨m, g, hm, offered⟩ := p.exists_offer_eq_step
  rw [offered]
  exact h.offer two_le hm g

theorem iterate (h : Sound s p) (two_le : 2 ≤ n) (k : Nat) : Sound s (Scramble.step^[k] p) := by
  induction k with
  | zero => exact h
  | succ k ih =>
    rw [Function.iterate_succ_apply']
    exact ih.step two_le

end Sound

/-! ## The end of the loop -/

theorem length_offer_le {m : Move} (fits : m.width < n) (p : Scramble n G) (g : G) :
    (p.offer m g).moves.length ≤ p.moves.length + 1 := by
  rcases offer_cases fits p g with kept | ⟨-, -, made⟩
  · rw [kept]
    exact Nat.le_succ _
  · rw [made]
    exact Nat.le_refl _

/-- One move is made at a time, so there are never too many. -/
theorem length_offerUntil_le (two_le : 2 ≤ n) {length : Nat} (le : p.moves.length ≤ length)
    {candidates : List Move} (drawn : ∀ m ∈ candidates, m.withAmount .clockwise ∈ choices n)
    (g : G) : (p.offerUntil length g candidates).moves.length ≤ length := by
  induction candidates generalizing p with
  | nil => exact le
  | cons m rest ih =>
    obtain ⟨hm, hrest⟩ := List.forall_mem_cons.1 drawn
    rw [offerUntil]
    split
    · exact le
    · have next := length_offer_le (width_lt_of_clockwise_mem two_le hm) p g
      exact ih (by omega) hrest

variable [Source G]

theorem length_step_le (two_le : 2 ≤ n) (p : Scramble n G) :
    p.step.moves.length ≤ p.moves.length + 1 := by
  obtain ⟨m, g, hm, offered⟩ := p.exists_offer_eq_step
  rw [offered]
  exact length_offer_le (width_lt_of_clockwise_mem two_le hm) p g

theorem length_le_of_run (two_le : 2 ≤ n) {length : Nat} (le : p.moves.length ≤ length)
    (h : p.run length = some q) : q.moves.length ≤ length := by
  refine (of_run (P := fun q => q.moves.length ≤ length) (fun q more _ => ?_) le h).1
  have next := q.length_step_le two_le
  omega

theorem exists_iterate_of_run {length : Nat} (h : p.run length = some q) :
    (∃ k, step^[k] p = q) ∧ length ≤ q.moves.length := by
  refine of_run (P := fun q => ∃ k, step^[k] p = q) (fun q _ reached => ?_) ⟨0, rfl⟩ h
  obtain ⟨k, rfl⟩ := reached
  exact ⟨k + 1, Function.iterate_succ_apply' step k p⟩

/-- By induction on how many steps it takes until there are enough moves. -/
theorem isSome_run_of_iterate {length k : Nat} (enough : length ≤ (step^[k] p).moves.length) :
    (p.run length).isSome = true := by
  induction k generalizing p with
  | zero =>
    rw [run_eq, if_pos (show length ≤ p.moves.length from enough)]
    rfl
  | succ k ih =>
    rw [run_eq]
    split
    · rfl
    · exact ih enough

theorem isSome_run_iff {length : Nat} :
    (p.run length).isSome = true ↔ ∃ k, length ≤ (step^[k] p).moves.length := by
  refine ⟨fun h => ?_, fun ⟨_, enough⟩ => isSome_run_of_iterate enough⟩
  obtain ⟨q, hq⟩ := Option.isSome_iff_exists.1 h
  obtain ⟨⟨k, rfl⟩, enough⟩ := exists_iterate_of_run hq
  exact ⟨k, enough⟩

end Scramble

namespace Cube

open Scramble

variable {n : Nat} {G : Type}

/-- The cube as a scramble under way leaves it. -/
def during (c : Cube n) (p : Scramble n G) : Cube n := { c with state := p.state }

variable [Hashable (Facelets n)]

/-- What can be said of moves that were drawn to scramble a cube, and of what they made of
it. -/
structure IsScramble (c : Cube n) (a : Algorithm) (d : Cube n) : Prop where
  applied : c.apply a = .ok d
  undone : d.apply a.inverse = .ok c
  hashes : (a.inits.map fun made => hash (makeAll made c.state)).Nodup
  states : (a.inits.map fun made => makeAll made c.state).Nodup
  varied : a.IsChain fun m k => m.letter ≠ k.letter
  drawn : ∀ m ∈ a, m.withAmount .clockwise ∈ choices n ∧ m.width ≤ max 1 (n / 2) ∧ m.width < n

theorem isScramble_of_sound {c : Cube n} {p : Scramble n G} (h : Sound c.state p) :
    c.IsScramble p.moves.reverse (c.during p) := by
  have drawn : ∀ m ∈ p.moves.reverse, m.withAmount .clockwise ∈ choices n ∧
      m.width ≤ max 1 (n / 2) ∧ m.width < n := by
    intro m hm
    have chosen := h.drawn m (List.mem_reverse.1 hm)
    exact ⟨chosen, (mem_choices_iff.1 chosen).1, width_lt_of_clockwise_mem c.two_le chosen⟩
  have applied : c.apply p.moves.reverse = .ok (c.during p) := by
    rw [apply_eq_of_fits fun m hm => (drawn m hm).2.2, h.state]
    rfl
  have hashes : (p.moves.reverse.inits.map fun made => hash (makeAll made c.state)).Nodup := by
    have fresh := h.fresh
    rw [h.met] at fresh
    simpa only [List.inits_reverse, List.map_reverse, List.nodup_reverse, List.map_map,
      Function.comp_def] using fresh
  refine ⟨applied, apply_inverse_of_apply applied, hashes, ?_, ?_, drawn⟩
  · refine List.Nodup.of_map hash ?_
    simpa only [List.map_map, Function.comp_def] using hashes
  · rw [List.isChain_reverse]
    exact h.varied.imp fun _ _ ne => ne.symm

variable [Source G]

/-- A scramble has a result just when there are enough moves at some time. -/
theorem isSome_scramble_iff (c : Cube n) (g : G) (length : Option Nat) :
    (c.scramble g length).isSome = true ↔
      ∃ k, length.getD (8 * n) ≤ (step^[k] (start c.state g)).moves.length := by
  rw [scramble, Option.isSome_map]
  exact isSome_run_iff

/-- The result of a scramble is what the loop comes to. -/
theorem exists_iterate_of_scramble {c d : Cube n} {g rest : G} {length : Option Nat}
    {a : Algorithm} (h : c.scramble g length = some (a, d, rest)) :
    ∃ k, a = (step^[k] (start c.state g)).moves.reverse ∧
      d = c.during (step^[k] (start c.state g)) ∧ a.length = length.getD (usualLength n) := by
  obtain ⟨p, ran, made⟩ := Option.map_eq_some_iff.1 h
  cases made
  obtain ⟨⟨k, rfl⟩, enough⟩ := exists_iterate_of_run ran
  have atMost := length_le_of_run c.two_le (Nat.zero_le _) ran
  refine ⟨k, rfl, rfl, ?_⟩
  rw [List.length_reverse]
  exact Nat.le_antisymm atMost enough

/-- Scrambling, at every turn of the loop, from whatever source and with whatever hash: after
any moves at all that could have been drawn, and if they are offered until there are enough,
then there are never more; after any number of draws; and at the end. It ends just when
enough moves are ever made, and then with as many as were asked for. -/
theorem scramble_isScramble (c : Cube n) (g : G) (length : Option Nat) :
    (∀ candidates : List Move, (∀ m ∈ candidates, m.withAmount .clockwise ∈ choices n) →
      let p := candidates.foldl (fun p m => p.offer m g) (start c.state g)
      c.IsScramble p.moves.reverse (c.during p)) ∧
    (∀ candidates : List Move, (∀ m ∈ candidates, m.withAmount .clockwise ∈ choices n) →
      let p := (start c.state g).offerUntil (length.getD (8 * n)) g candidates
      c.IsScramble p.moves.reverse (c.during p) ∧ p.moves.length ≤ length.getD (8 * n)) ∧
    (∀ k, c.IsScramble (step^[k] (start c.state g)).moves.reverse
      (c.during (step^[k] (start c.state g)))) ∧
    ((c.scramble g length).isSome = true ↔
      ∃ k, length.getD (8 * n) ≤ (step^[k] (start c.state g)).moves.length) ∧
    ∀ a d rest, c.scramble g length = some (a, d, rest) →
      c.IsScramble a d ∧ a.length = length.getD (8 * n) := by
  have sound := Sound.start c.state g
  refine ⟨fun candidates drawn => ?_, fun candidates drawn => ⟨?_, ?_⟩, fun k => ?_,
    c.isSome_scramble_iff g length, fun a d rest h => ?_⟩
  · exact isScramble_of_sound (sound.offerAll c.two_le drawn g)
  · exact isScramble_of_sound (sound.offerUntil c.two_le drawn _ g)
  · exact length_offerUntil_le c.two_le (Nat.zero_le _) drawn g
  · exact isScramble_of_sound (sound.iterate c.two_le k)
  · obtain ⟨k, rfl, rfl, asked⟩ := exists_iterate_of_scramble h
    exact ⟨isScramble_of_sound (sound.iterate c.two_le k), asked⟩

/-- The second is passed over for its letter, and the fifth since it leads back to the
start. -/
def candidates : List Move :=
  [.single (.outer .r) .clockwise, .single (.outer .r) .half, .single (.outer .l) .clockwise,
    .single (.outer .r) .counterclockwise, .single (.outer .l) .counterclockwise,
    .single (.outer .u) .half]

theorem isScramble_three :
    (∀ m ∈ candidates, m.withAmount .clockwise ∈ choices defaultSize) ∧
    standard.IsScramble
      (candidates.foldl (fun p m => p.offer m (⟨42⟩ : Generator))
        (start standard.state ⟨42⟩)).moves.reverse
      (standard.during (candidates.foldl (fun p m => p.offer m (⟨42⟩ : Generator))
        (start standard.state ⟨42⟩))) ∧
    ∃ a d rest, standard.scramble (⟨42⟩ : Generator) (some 3) = some (a, d, rest) ∧
      standard.IsScramble a d ∧ a.length = 3 := by
  have drawn : ∀ m ∈ candidates, m.withAmount .clockwise ∈ choices defaultSize := by decide
  obtain ⟨offered, -, -, ends, ended⟩ :=
    scramble_isScramble standard (⟨42⟩ : Generator) (some 3)
  have enough : 3 ≤ (step^[5] (start standard.state (⟨42⟩ : Generator))).moves.length := by
    decide +kernel
  obtain ⟨⟨a, d, rest⟩, h⟩ := Option.isSome_iff_exists.1 (ends.2 ⟨5, enough⟩)
  exact ⟨drawn, offered candidates drawn, a, d, rest, h, ended a d rest h⟩

end Cube

end Twisty
