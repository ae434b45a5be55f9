/-! The blank characters: everything with the Unicode property `White_Space`.
They separate the words of an algorithm and mean nothing themselves. -/

namespace Twisty.Text

/-- First and last code point of each run of blank characters. -/
def blankRuns : List (Nat × Nat) :=
  [(0x09, 0x0D), (0x20, 0x20), (0x85, 0x85), (0xA0, 0xA0), (0x1680, 0x1680),
   (0x2000, 0x200A), (0x2028, 0x2029), (0x202F, 0x202F), (0x205F, 0x205F),
   (0x3000, 0x3000)]

def isBlank (c : Char) : Bool :=
  blankRuns.any fun run => run.1 ≤ c.toNat && c.toNat ≤ run.2

theorem isBlank_iff (c : Char) :
    isBlank c = true ↔ ∃ run ∈ blankRuns, run.1 ≤ c.toNat ∧ c.toNat ≤ run.2 := by
  simp [isBlank]

/-- Digits and letters of ASCII lie between the first digit and the last small letter. -/
theorem toNat_of_isAlphanum {c : Char} (h : c.isAlphanum = true) :
    48 ≤ c.toNat ∧ c.toNat ≤ 122 := by
  delta Char.isAlphanum Char.isAlpha Char.isUpper Char.isLower Char.isDigit at h
  simp only [Bool.or_eq_true, decide_eq_true_eq, Bool.and_eq_true, ge_iff_le,
    UInt32.le_iff_toNat_le, Char.reduceVal, UInt32.reduceToNat] at h
  simp only [Char.toNat]
  omega

/-- Neither a digit nor a letter of ASCII is blank. -/
theorem isBlank_of_isAlphanum {c : Char} (h : c.isAlphanum = true) : isBlank c = false := by
  rw [← Bool.not_eq_true, isBlank_iff]
  intro blank
  obtain ⟨run, hrun, first, last⟩ := blank
  have range := toNat_of_isAlphanum h
  have outside : ∀ run ∈ blankRuns, run.2 < 48 ∨ 122 < run.1 := by decide
  rcases outside run hrun with before | behind <;> omega

end Twisty.Text
