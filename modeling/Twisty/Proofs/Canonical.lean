import Twisty.Proofs.Expansion

/-! Canonical texts. What is printed of moves is read as these moves, alone or behind any
text that is read and a blank. To read and print is therefore a normal form: reading and
printing again changes nothing, and it tells different algorithms apart. -/

namespace Twisty

open Text

/-! ## What is printed of one move -/

namespace Move

/-- Two layers are what the mark alone stands for, and one layer has no mark. -/
theorem readWidth?_digits {width : Nat} (one_le : 1 ≤ width) (le : width ≤ Count.limit) :
    readWidth? (if 2 < width then Count.digits width else []) (1 < width) = some width := by
  rcases Nat.lt_trichotomy width 2 with one | rfl | more
  · obtain rfl : width = 1 := by omega
    rfl
  · rfl
  · have wide : 1 < width := by omega
    have two_le : 2 ≤ width := Nat.le_of_lt more
    simp [readWidth?, more, wide, two_le, Count.digits_ne_nil, Count.ofDigits?_digits le]

theorem ofChars?_chars (m : Move) : ofChars? m.chars = some m := by
  refine ofChars?_eq_some_iff.2
    ⟨_, _, ?_, readWidth?_digits m.width_pos m.width_le, ?_⟩
  · split
    · exact fun c hc => Count.isDigit_of_mem_digits hc
    · exact List.forall_mem_nil _
  · simp [chars, mark]

theorem parse_text (m : Move) : parse m.text = .ok m := by
  rw [parse, text, String.toList_ofList, ofChars?_chars]

theorem isAlphanum_of_mem_chars {m : Move} {c : Char} (h : c ∈ m.chars) :
    c.isAlphanum = true ∨ c = '\'' := by
  rw [chars, List.append_assoc, List.mem_append, List.cons_append, List.mem_cons,
    List.mem_append] at h
  rcases h with width | rfl | marked | suffix
  · split at width
    · rw [Char.isAlphanum, Count.isDigit_of_mem_digits width, Bool.or_true]
      exact Or.inl rfl
    · exact absurd width List.not_mem_nil
  · rw [Char.isAlphanum, m.letter.isAlpha_char, Bool.true_or]
    exact Or.inl rfl
  · split at marked
    · rw [List.mem_singleton.1 marked]
      exact Or.inl rfl
    · exact absurd marked List.not_mem_nil
  · generalize m.amount = amount at suffix
    cases amount with
    | clockwise => exact absurd suffix List.not_mem_nil
    | counterclockwise => exact Or.inr (List.mem_singleton.1 suffix)
    | half =>
      rw [List.mem_singleton.1 suffix]
      exact Or.inl rfl

end Move

/-! ## What is printed of an algorithm -/

namespace Algorithm

/-- The printed moves, one after another. -/
def words (a : Algorithm) : List Token := a.map fun m => .move m.chars

theorem scan_chars (a : Algorithm) : Token.scan a.chars = .ok a.words := by
  induction a with
  | nil => exact Token.scan_nil
  | cons m rest ih =>
    cases rest with
    | nil =>
      rw [chars_singleton, ← List.append_nil m.chars, Token.scan_word m.ofChars?_chars ends_nil,
        Token.scan_nil]
      rfl
    | cons k rest =>
      rw [chars_cons_cons, Token.scan_word m.ofChars?_chars (ends_cons rfl _),
        Token.scan_blank rfl, ih]
      rfl

end Algorithm

/-- Moves alone need no room to be set aside. -/
theorem Pending.takeAll_words (a : Algorithm) (current : List Move) (outer : List (List Move)) :
    takeAll ⟨current, outer⟩ a.words = .ok ⟨a.reverse ++ current, outer⟩ := by
  induction a generalizing current with
  | nil => rfl
  | cons m rest ih =>
    have taken : take ⟨current, outer⟩ (.move m.chars) = .ok ⟨m :: current, outer⟩ := by
      simp only [take, m.ofChars?_chars, push]
    rw [Algorithm.words, List.map_cons, takeAll_of_take taken]
    simpa [Algorithm.words] using ih (m :: current)

/-! ## A text behind another one -/

namespace Text

variable {tail : List Char}

theorem splitFirst_append_of_head {p : Char → Bool} (stop : ∀ c ∈ tail.head?, p c = false)
    (cs : List Char) :
    splitFirst p (cs ++ tail) = ((splitFirst p cs).1, (splitFirst p cs).2 ++ tail) := by
  cases cs with
  | nil => exact splitFirst_of_head stop
  | cons c rest =>
    simp only [List.cons_append, splitFirst]
    split <;> rfl

theorem leadingDigits_append_of_head (stop : ∀ c ∈ tail.head?, c.isDigit = false)
    (cs : List Char) : leadingDigits (cs ++ tail) = leadingDigits cs := by
  induction cs with
  | nil => exact leadingDigits_of_append (List.forall_mem_nil _) stop
  | cons c rest ih =>
    simp only [leadingDigits, List.cons_append, List.takeWhile_cons] at ih ⊢
    rw [ih]

theorem afterDigits_append_of_head (stop : ∀ c ∈ tail.head?, c.isDigit = false)
    (cs : List Char) : afterDigits (cs ++ tail) = afterDigits cs ++ tail := by
  have whole := leadingDigits_append (cs ++ tail)
  rw [leadingDigits_append_of_head stop] at whole
  refine List.append_cancel_left (whole.trans ?_)
  rw [← List.append_assoc, leadingDigits_append]

end Text

namespace Token

variable {tail : List Char}

/-- A word that ends before a break is the same if the break is the end of the text. -/
theorem splitWord_append_tail (ends : Ends tail) (cs : List Char) :
    splitWord (cs ++ tail) = ((splitWord cs).1, (splitWord cs).2 ++ tail) := by
  have digits := ends.not not_isDigit_of_isBreak
  simp only [splitWord, leadingDigits_append_of_head digits, afterDigits_append_of_head digits]
  cases afterDigits cs with
  | nil =>
    cases tail with
    | nil => rfl
    | cons c rest =>
      have notLetter : c.isAlpha = false := by
        rw [← Bool.not_eq_true]
        intro letter
        have alphanumeric : c.isAlphanum = true := by rw [Char.isAlphanum, letter, Bool.true_or]
        exact Bool.false_ne_true ((isBreak_of_isAlphanum alphanumeric).symm.trans (ends c rfl))
      simp [notLetter]
  | cons c rest =>
    simp only [List.cons_append]
    split
    · simp only [splitFirst_append_of_head (ends.not not_isMark_of_isBreak),
        splitFirst_append_of_head (ends.not not_isTurnSuffix_of_isBreak)]
    · rfl

theorem next_append_tail (ends : Ends tail) {c : Char} {rest after : List Char}
    {token : Option Token} (found : next c rest = .ok (token, after)) :
    next c (rest ++ tail) = .ok (token, after ++ tail) := by
  have digits := ends.not not_isDigit_of_isBreak
  have suffix : ∀ c ∈ tail.head?, (c == '\'' || c == 'w') = false := by
    intro c hc
    rw [ne_of_isBreak (by decide) c (ends c hc), ne_of_isBreak (by decide) c (ends c hc)]
    rfl
  unfold next at found ⊢
  rw [leadingDigits_append_of_head digits, afterDigits_append_of_head digits,
    splitFirst_append_of_head suffix, ← List.cons_append, splitWord_append_tail ends]
  split at found
  · rename_i blank
    cases found
    rw [if_pos blank]
  rename_i notBlank
  rw [if_neg notBlank]
  split at found
  · rename_i opens
    cases found
    rw [if_pos opens]
  rename_i notOpening
  rw [if_neg notOpening]
  split at found
  · rename_i closes
    rw [if_pos closes]
    split at found
    · rename_i behind
      cases found
      rw [behind]
    · cases found
  · rename_i notClosing
    rw [if_neg notClosing]
    split at found
    · cases found
    · rename_i word after notEmpty parted
      cases found
      rw [parted]
      cases word with
      | nil => exact absurd rfl notEmpty
      | cons d word => rfl

/-- The words before a break do not depend on what follows it. -/
theorem scan_append {cs : List Char} {tokens : List Token} (h : scan cs = .ok tokens)
    (ends : Ends tail) : scan (cs ++ tail) = (scan tail).map (tokens ++ ·) := by
  refine of_scan (P := fun cs tokens => scan (cs ++ tail) = (scan tail).map (tokens ++ ·))
    ?_ (fun found _ more => ?_) h
  · rw [List.nil_append]
    cases scan tail <;> rfl
  · rw [List.cons_append, scan_of_next (next_append_tail ends found), more]
    cases scan tail with
    | error flaw => rfl
    | ok last => simp [Except.map]

end Token

theorem Pending.takeAll_append {p q : Pending} {tokens : List Token}
    (h : p.takeAll tokens = .ok q) (more : List Token) :
    p.takeAll (tokens ++ more) = q.takeAll more := by
  induction tokens generalizing p with
  | nil => cases h; rfl
  | cons token rest ih =>
    obtain ⟨next, taken, later⟩ := takeAll_cons_eq_ok_iff.1 h
    rw [List.cons_append, takeAll_of_take taken, ih later]

namespace Algorithm

variable {a b : Algorithm}

/-- Printed moves can be put behind any text that is read. -/
theorem ofChars_append {cs : List Char} (h : ofChars cs = .ok a) (b : Algorithm) :
    ofChars (cs ++ ' ' :: b.chars) = .ok (a ++ b) := by
  obtain ⟨tokens, current, scanned, taken, rfl⟩ := ofChars_eq_ok_iff.1 h
  have behind : Token.scan (' ' :: b.chars) = .ok b.words :=
    (Token.scan_blank rfl b.chars).trans b.scan_chars
  have all : Token.scan (cs ++ ' ' :: b.chars) = .ok (tokens ++ b.words) := by
    rw [Token.scan_append scanned (ends_cons rfl _), behind]
    rfl
  have takenAll := (Pending.takeAll_append taken b.words).trans (Pending.takeAll_words b current [])
  refine ofChars_eq_ok_iff.2 ⟨_, _, all, takenAll, ?_⟩
  rw [List.reverse_append, List.reverse_reverse]

theorem ofChars_of_scan_words {cs : List Char} (h : Token.scan cs = .ok a.words) :
    ofChars cs = .ok a := by
  refine ofChars_eq_ok_iff.2 ⟨_, _, h, Pending.takeAll_words a [] [], ?_⟩
  rw [List.append_nil, List.reverse_reverse]

theorem ofChars_chars (a : Algorithm) : ofChars a.chars = .ok a :=
  ofChars_of_scan_words a.scan_chars

theorem parse_append {text : String} (h : parse text = .ok a) (b : Algorithm) :
    parse (text ++ " " ++ b.text) = .ok (a ++ b) := by
  have chars : (text ++ " " ++ b.text).toList = text.toList ++ ' ' :: b.chars := by
    simp [Algorithm.text]
  rw [parse_eq_ok_iff, chars]
  exact ofChars_append (parse_eq_ok_iff.1 h) b

theorem parse_text (a : Algorithm) : parse a.text = .ok a := by
  rw [parse_eq_ok_iff, text, String.toList_ofList]
  exact a.ofChars_chars

theorem text_injective : Function.Injective text := by
  intro a b h
  have read := parse_text a
  rw [h, parse_text] at read
  exact (Except.ok.inj read).symm

/-- Reading undoes printing, for each move and for moves in any number. What is printed
of a text is therefore its canonical form, and texts that mean the same have the same. -/
theorem text_canonical :
    (∀ m : Move, Move.parse m.text = .ok m) ∧
    (∀ a : Algorithm, parse a.text = .ok a) ∧
    (∀ text a, parse text = .ok a → ∃ b, parse a.text = .ok b ∧ b.text = a.text) ∧
    ∀ one other a b, parse one = .ok a → parse other = .ok b → (a.text = b.text ↔ a = b) := by
  refine ⟨Move.parse_text, parse_text, fun _ a _ => ⟨a, a.parse_text, rfl⟩, ?_⟩
  exact fun _ _ _ _ _ _ => text_injective.eq_iff

def wideOnce : Algorithm :=
  [⟨2, .outer .r, .clockwise, by decide, by decide, by decide⟩,
    .single (.rotation .x) .counterclockwise]

def wideTwice : Algorithm := copies 2 wideOnce

/-- Neither the width of two layers is printed nor the group. -/
theorem text_canonical_wideTwice :
    parse "(02Rw x')2" = .ok wideTwice ∧ parse "2Rwx'" = .ok wideOnce ∧
    wideTwice.text = "Rw x' Rw x'" ∧
    (∃ b, parse wideTwice.text = .ok b ∧ b.text = wideTwice.text) ∧
    (wideTwice.text = wideOnce.text ↔ wideTwice = wideOnce) := by
  obtain ⟨-, -, again, alike⟩ := text_canonical
  have grouped : parse "(02Rw x')2" = .ok wideTwice := by decide +kernel
  have single : parse "2Rwx'" = .ok wideOnce := by decide +kernel
  exact ⟨grouped, single, by decide +kernel, again _ _ grouped, alike _ _ _ _ grouped single⟩

end Algorithm

end Twisty
