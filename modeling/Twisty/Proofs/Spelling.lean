import Twisty.Proofs.Words
import Mathlib.Algebra.Group.Nat.Defs

/-! The spelling of moves. What can be read as one move is said here part by part, without
the reader: which characters a move may have where, and what each of them asks for. The
reader takes just these texts, and a text that it does not take is named whole. -/

namespace Twisty

open Text

/-- A move as it may be written: digits, a letter, the mark `w` and a suffix, where digits
need the mark and the mark needs a letter of an outer face. -/
structure Spelling where
  digits : List Char
  letter : Char
  marked : Bool
  suffix : List Char
  isDigit : ∀ c ∈ digits, c.isDigit = true
  letter_mem : letter ∈ "UFRBLDufrbldxyzMES".toList
  suffix_mem : suffix ∈ [[], ['\''], ['2']]
  marked_of_digits : digits ≠ [] → marked = true
  outer_of_marked : marked = true → letter ∈ "UFRBLD".toList
  count_of_digits : digits ≠ [] → 2 ≤ Count.value digits ∧ Count.value digits ≤ 2 ^ 64 - 1

namespace Spelling

def chars (s : Spelling) : List Char :=
  s.digits ++ s.letter :: (Move.mark s.marked ++ s.suffix)

def text (s : Spelling) : String := String.ofList s.chars

/-- The mark alone means two layers. Zeros before the other digits do not count. -/
def width (s : Spelling) : Nat :=
  if s.marked = false then 1 else if s.digits = [] then 2 else Count.value s.digits

/-- What a spelling says of a move. -/
structure Names (s : Spelling) (m : Move) : Prop where
  letter : m.letter.char = s.letter
  amount : m.amount.suffix = s.suffix
  width : m.width = s.width

end Spelling

/-! ## The parts of a move -/

theorem Letter.exists_char_eq_iff {c : Char} :
    (∃ letter : Letter, letter.char = c) ↔ c ∈ "UFRBLDufrbldxyzMES".toList := by
  constructor
  · rintro ⟨letter, rfl⟩
    have each : ∀ letter ∈ all, letter.char ∈ "UFRBLDufrbldxyzMES".toList := by decide
    exact each letter letter.mem_all
  · intro h
    have each : "UFRBLDufrbldxyzMES".toList.all (fun c => (ofChar? c).isSome) = true := by decide
    obtain ⟨letter, found⟩ := Option.isSome_iff_exists.1 (List.all_eq_true.1 each c h)
    exact ⟨letter, ofChar?_eq_some_iff.1 found⟩

theorem Letter.isOuter_iff {letter : Letter} :
    letter.isOuter = true ↔ letter.char ∈ "UFRBLD".toList := by
  have each : ∀ letter ∈ all, (letter.isOuter = true ↔ letter.char ∈ "UFRBLD".toList) := by
    decide
  exact each letter letter.mem_all

theorem Amount.exists_suffix_eq_iff {cs : List Char} :
    (∃ amount : Amount, amount.suffix = cs) ↔ cs ∈ [[], ['\''], ['2']] := by
  constructor
  · rintro ⟨amount, rfl⟩
    cases amount <;> decide
  · intro h
    simp only [List.mem_cons, List.not_mem_nil, or_false] at h
    rcases h with rfl | rfl | rfl
    · exact ⟨.clockwise, rfl⟩
    · exact ⟨.counterclockwise, rfl⟩
    · exact ⟨.half, rfl⟩

theorem Move.readWidth?_eq_some_iff {digits : List Char} {marked : Bool} {width : Nat} :
    readWidth? digits marked = some width ↔
      (digits = [] ∧ width = if marked = false then 1 else 2) ∨
      (digits ≠ [] ∧ marked = true ∧ (∀ c ∈ digits, c.isDigit = true) ∧
        Count.value digits = width ∧ 2 ≤ width ∧ width ≤ Count.limit) := by
  by_cases missing : digits = []
  · subst missing
    cases marked <;> simp [readWidth?] <;> exact eq_comm
  · cases marked with
    | false =>
      have refused : readWidth? digits false = none := by
        rw [readWidth?, if_neg Bool.false_ne_true, if_neg missing]
      simp [refused, missing]
    | true =>
      simp only [readWidth?, if_true, if_neg missing, Option.filter_eq_some_iff,
        Count.ofDigits?_eq_some_iff, List.all_eq_true, decide_eq_true_eq]
      simp only [missing, ne_eq, not_false_eq_true, true_and, false_and, false_or]
      exact ⟨fun ⟨⟨digits, value, le⟩, two_le⟩ => ⟨digits, value, two_le, le⟩,
        fun ⟨digits, value, two_le, le⟩ => ⟨⟨digits, value, le⟩, two_le⟩⟩

/-! ## Spellings and moves -/

namespace Spelling

variable {s : Spelling} {m : Move}

theorem readWidth?_width (s : Spelling) : Move.readWidth? s.digits s.marked = some s.width := by
  rw [Move.readWidth?_eq_some_iff]
  by_cases missing : s.digits = []
  · left
    simp [width, missing]
  · right
    have marked := s.marked_of_digits missing
    have asked : s.width = Count.value s.digits := by simp [width, marked, missing]
    rw [asked]
    exact ⟨missing, marked, s.isDigit, rfl, s.count_of_digits missing⟩

theorem width_cases (s : Spelling) :
    s.width = 1 ∨ (s.marked = true ∧ 2 ≤ s.width ∧ s.width ≤ Count.limit) := by
  rcases Move.readWidth?_eq_some_iff.1 s.readWidth?_width with ⟨-, width⟩ | ⟨-, marked, -, -, range⟩
  · cases marked : s.marked with
    | false =>
      rw [marked] at width
      exact Or.inl width
    | true =>
      rw [marked] at width
      exact Or.inr ⟨rfl, by rw [width]; decide⟩
  · exact Or.inr ⟨marked, range⟩

theorem exists_names (s : Spelling) : ∃ m, s.Names m := by
  obtain ⟨letter, hletter⟩ := Letter.exists_char_eq_iff.2 s.letter_mem
  obtain ⟨amount, hamount⟩ := Amount.exists_suffix_eq_iff.2 s.suffix_mem
  have fits : 1 ≤ s.width ∧ s.width ≤ Count.limit := by
    rcases s.width_cases with one | ⟨-, two_le, le⟩
    · rw [one]
      decide
    · exact ⟨Nat.le_of_succ_le two_le, le⟩
  have outer : 1 < s.width → letter.isOuter = true := by
    intro wide
    rcases s.width_cases with one | ⟨marked, -⟩
    · omega
    · rw [Letter.isOuter_iff, hletter]
      exact s.outer_of_marked marked
  exact ⟨⟨s.width, letter, amount, fits.1, fits.2, outer⟩, hletter, hamount, rfl⟩

theorem Names.ofChars?_chars (names : s.Names m) : Move.ofChars? s.chars = some m := by
  refine Move.ofChars?_eq_some_iff.2 ⟨s.digits, s.marked, s.isDigit, ?_, ?_⟩
  · rw [names.width]
    exact s.readWidth?_width
  · rw [chars, names.letter, names.amount]

/-- Every word that is read is spelled by the rules. -/
theorem exists_of_ofChars? {word : List Char} (reads : Move.ofChars? word = some m) :
    ∃ s : Spelling, s.chars = word ∧ s.Names m := by
  obtain ⟨digits, marked, isDigit, asked, rfl⟩ := Move.ofChars?_eq_some_iff.1 reads
  have letter_mem := Letter.exists_char_eq_iff.1 ⟨m.letter, rfl⟩
  have suffix_mem := Amount.exists_suffix_eq_iff.1 ⟨m.amount, rfl⟩
  rcases Move.readWidth?_eq_some_iff.1 asked with
    ⟨rfl, width⟩ | ⟨written, rfl, -, value, two_le, le⟩
  · refine ⟨⟨[], m.letter.char, marked, m.amount.suffix, isDigit, letter_mem, suffix_mem,
      fun h => absurd rfl h, ?_, fun h => absurd rfl h⟩, rfl, rfl, rfl, ?_⟩
    · rintro rfl
      rw [← Letter.isOuter_iff]
      exact m.outer_of_wide (by rw [width]; decide)
    · simp [Spelling.width, width]
  · refine ⟨⟨digits, m.letter.char, true, m.amount.suffix, isDigit, letter_mem, suffix_mem,
      fun _ => rfl, fun _ => ?_, fun _ => ?_⟩, rfl, rfl, rfl, ?_⟩
    · rw [← Letter.isOuter_iff]
      exact m.outer_of_wide two_le
    · rw [value]
      exact ⟨two_le, le⟩
    · simp [Spelling.width, written, value]

end Spelling

/-- A text is read as a move just if it is spelled as one, and then as the move that the
spelling names. Any other text is at fault as a whole. -/
theorem Move.parse_spelled (text : String) :
    (∀ m, parse text = .ok m ↔ ∃ s : Spelling, s.text = text ∧ s.Names m) ∧
    ((∃ m, parse text = .ok m) ↔ ∃ s : Spelling, s.text = text) ∧
    (parse text = .error (.move text) ↔ ¬ ∃ s : Spelling, s.text = text) := by
  have reads : ∀ m, parse text = .ok m ↔ ∃ s : Spelling, s.text = text ∧ s.Names m := by
    intro m
    rw [parse_eq_ok_iff]
    constructor
    · intro h
      obtain ⟨s, spelled, names⟩ := Spelling.exists_of_ofChars? h
      exact ⟨s, by rw [Spelling.text, spelled, String.ofList_toList], names⟩
    · rintro ⟨s, rfl, names⟩
      rw [Spelling.text, String.toList_ofList, names.ofChars?_chars]
  have accepts : (∃ m, parse text = .ok m) ↔ ∃ s : Spelling, s.text = text := by
    constructor
    · rintro ⟨m, h⟩
      obtain ⟨s, spelled, -⟩ := (reads m).1 h
      exact ⟨s, spelled⟩
    · rintro ⟨s, spelled⟩
      obtain ⟨m, names⟩ := s.exists_names
      exact ⟨m, (reads m).2 ⟨s, spelled, names⟩⟩
  refine ⟨reads, accepts, ?_⟩
  rw [← accepts, parse_eq_error_iff]
  simp only [parse_eq_ok_iff, ← Option.isSome_iff_exists, Option.not_isSome_iff_eq_none]

end Twisty
