import Twisty.Move.Amount
import Twisty.Move.Letter
import Twisty.Notation.Fault
import Twisty.Text.Count

/-! A move: how many layers turn, which ones and how far. The width is a count of at
least one, and only the six outer faces may be turned deeper than one layer. -/

namespace Twisty

open Text

structure Move where
  width : Nat
  letter : Letter
  amount : Amount
  width_pos : 1 ≤ width
  width_le : width ≤ Count.limit
  outer_of_wide : 1 < width → letter.isOuter = true
deriving DecidableEq

namespace Move

theorem ext_of {m k : Move} (hw : m.width = k.width) (hl : m.letter = k.letter)
    (ha : m.amount = k.amount) : m = k := by
  cases m; cases k
  cases hw; cases hl; cases ha
  rfl

/-- One layer, or the whole cube. -/
def single (letter : Letter) (amount : Amount) : Move :=
  ⟨1, letter, amount, by decide, by decide, fun h => absurd h (by decide)⟩

def new? (width : Nat) (letter : Letter) (amount : Amount) : Option Move :=
  if h : 1 ≤ width ∧ width ≤ Count.limit ∧ (1 < width → letter.isOuter = true) then
    some ⟨width, letter, amount, h.1, h.2.1, h.2.2⟩
  else none

theorem new?_eq_some_iff {width : Nat} {letter : Letter} {amount : Amount} {m : Move} :
    new? width letter amount = some m ↔
      m.width = width ∧ m.letter = letter ∧ m.amount = amount := by
  simp only [new?]
  split
  · constructor
    · intro h; cases h; exact ⟨rfl, rfl, rfl⟩
    · rintro ⟨rfl, rfl, rfl⟩; rfl
  · rename_i h
    constructor
    · intro e; cases e
    · rintro ⟨rfl, rfl, rfl⟩
      exact absurd ⟨m.width_pos, m.width_le, m.outer_of_wide⟩ h

def isWide (m : Move) : Bool := 1 < m.width

def withAmount (m : Move) (amount : Amount) : Move := { m with amount := amount }

def inverse (m : Move) : Move := m.withAmount m.amount.inverse

@[simp] theorem inverse_inverse (m : Move) : m.inverse.inverse = m :=
  ext_of rfl rfl m.amount.inverse_inverse

/-! ## Text -/

/-- The width is written only where the mark `w` alone would mean two layers. -/
def chars (m : Move) : List Char :=
  (if 2 < m.width then Count.digits m.width else []) ++
    m.letter.char :: (if 1 < m.width then ['w'] else []) ++ m.amount.suffix

def text (m : Move) : String := String.ofList m.chars

/-- The move with a given width, or the text of a move that cannot be. -/
def new (width : Nat) (letter : Letter) (amount : Amount) : Except ParseError Move :=
  match new? width letter amount with
  | some m => .ok m
  | none =>
    .error (.move (String.ofList
      (Count.digits width ++ letter.char :: 'w' :: amount.suffix)))

end Move

end Twisty
