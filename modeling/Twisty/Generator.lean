import Twisty.Source

/-! A small generator of pseudorandom words. Its 64-bit state grows by an odd constant,
so it goes through all states before it comes round; a word is the two halves of a
product crossed with each other. -/

namespace Twisty

structure Generator where
  state : UInt64
deriving DecidableEq

namespace Generator

def next (g : Generator) : UInt64 × Generator :=
  let state := g.state + 0x2d358dccaa6c78a5
  let product := state.toNat * (state ^^^ 0x8bb84b93962eacc9).toNat
  (UInt64.ofNat product ^^^ UInt64.ofNat (product / UInt64.size), ⟨state⟩)

/-- How many of the low halves are left out so that every number below a bound is
drawn equally often. -/
def surplus (bound : Nat) : Nat := (UInt64.size - bound) % bound

/-- The high half of a word times the bound, drawn again while the low half is among
those left out. -/
def draw (bound : Nat) : Nat → Generator → Nat × Generator
  | 0, g => (0, g)
  | fuel + 1, g =>
    let word := g.next.1.toNat
    if word * bound % UInt64.size < surplus bound then draw bound fuel g.next.2
    else (word * bound / UInt64.size, g.next.2)

theorem high_lt {word bound : Nat} (hw : word < UInt64.size) (hb : 0 < bound) :
    word * bound / UInt64.size < bound := by
  apply Nat.div_lt_of_lt_mul
  exact Nat.mul_lt_mul_of_pos_right hw hb

theorem draw_lt {bound : Nat} (pos : 0 < bound) (fuel : Nat) (g : Generator) :
    (draw bound fuel g).1 < bound := by
  induction fuel generalizing g with
  | zero => exact pos
  | succ fuel ih =>
    simp only [draw]
    split
    · exact ih _
    · exact high_lt g.next.1.toNat_lt_size pos

/-- Every state has its turn within as many draws as there are words. -/
instance : Source Generator where
  seeded seed := ⟨seed⟩
  below bound g := draw bound UInt64.size g
  below_lt pos g := draw_lt pos UInt64.size g

end Generator

end Twisty
