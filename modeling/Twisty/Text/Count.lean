/-! Counts as text. A count is a natural number of at most 64 bits, written in
decimal. Reading takes any nonempty run of digits, leading zeros included, so it
undoes writing and forgives padding. -/

namespace Twisty.Text.Count

/-- The largest count. -/
def limit : Nat := 18446744073709551615

def digits (n : Nat) : List Char := Nat.toDigits 10 n

/-- The number that a run of decimal digits stands for. -/
def value (ds : List Char) : Nat := Nat.ofDigitChars 10 ds 0

def ofDigits? (ds : List Char) : Option Nat :=
  if ds ≠ [] ∧ ds.all Char.isDigit = true ∧ value ds ≤ limit then some (value ds) else none

theorem ofDigits?_eq_some_iff {ds : List Char} {n : Nat} :
    ofDigits? ds = some n ↔
      ds ≠ [] ∧ ds.all Char.isDigit = true ∧ value ds = n ∧ n ≤ limit := by
  simp only [ofDigits?]
  split
  · rename_i h
    constructor
    · intro e; cases e; exact ⟨h.1, h.2.1, rfl, h.2.2⟩
    · rintro ⟨_, _, rfl, _⟩; rfl
  · rename_i h
    constructor
    · intro e; cases e
    · rintro ⟨h1, h2, rfl, h3⟩; exact absurd ⟨h1, h2, h3⟩ h

theorem value_digits (n : Nat) : value (digits n) = n :=
  Nat.ofDigitChars_toDigits (by decide) (by decide)

theorem digits_ne_nil (n : Nat) : digits n ≠ [] := Nat.toDigits_ne_nil

theorem isDigit_of_mem_digits {c : Char} {n : Nat} (h : c ∈ digits n) : c.isDigit = true :=
  Nat.isDigit_of_mem_toDigits (by decide) (by decide) h

theorem ofDigits?_digits {n : Nat} (h : n ≤ limit) : ofDigits? (digits n) = some n :=
  ofDigits?_eq_some_iff.2 ⟨digits_ne_nil n,
    List.all_eq_true.2 fun _ hc => isDigit_of_mem_digits hc, value_digits n, h⟩

end Twisty.Text.Count
