import Twisty.Proofs.QuotedText
import Twisty.Text.Blank
import Twisty.Text.Split
import Mathlib.Algebra.Group.Nat.Defs

/-! Lines of a settings file, as they may be written. A key is a bare word or in quotes, and
behind an equals sign there is a value. Blanks may be put around both, and a comment behind
them. However a line is written, its entry is read from it in the usual format, in which
values are numbers in decimal digits, texts in quotes and truth values. -/

namespace Twisty.Settings.Entry

open Text

/-! ## Blanks and comments -/

def Gap (cs : List Char) : Prop := ∀ c ∈ cs, c = ' ' ∨ c = '\t'

theorem Gap.isGap {gap : List Char} (h : Gap gap) : ∀ c ∈ gap, isGap c = true := by
  intro c hc
  rcases h c hc with rfl | rfl <;> rfl

theorem skipGap_append {gap rest : List Char} (h : Gap gap)
    (stop : ∀ c ∈ rest.head?, isGap c = false) : skipGap (gap ++ rest) = rest :=
  dropWhile_of_append h.isGap stop

theorem skipGap_gap {gap : List Char} (h : Gap gap) : skipGap gap = [] := by
  have skipped := @skipGap_append gap [] h fun c hc => absurd hc (Option.not_mem_none c)
  rwa [List.append_nil] at skipped

/-- A line that says nothing, or what a line has behind all that it says. -/
inductive Idle : List Char → Prop
  | blank {gap : List Char} : Gap gap → Idle gap
  | comment {gap text : List Char} : Gap gap → (∀ c ∈ text, Printable c) →
      Idle (gap ++ '#' :: text)

theorem Idle.isTail {cs : List Char} (h : Idle cs) : isTail cs = true := by
  cases h with
  | blank gap => rw [Entry.isTail, skipGap_gap gap]
  | comment gap printable =>
    rw [Entry.isTail, skipGap_append gap (fun c hc => by cases hc; rfl)]
    exact List.all_eq_true.2 fun c hc => isPlain_iff.2 (printable c hc)

theorem Idle.head? {cs : List Char} (h : Idle cs) : ∀ c ∈ cs.head?, isGap c = true ∨ c = '#' := by
  intro c hc
  cases h with
  | blank gap => exact Or.inl (gap.isGap c (List.mem_of_mem_head? hc))
  | @comment gap text blanks _ =>
    cases gap with
    | nil =>
      cases hc
      exact Or.inr rfl
    | cons d gap =>
      cases hc
      exact Or.inl (blanks.isGap c List.mem_cons_self)

/-! ## Keys -/

/-- A key and how it may be written. -/
inductive KeyText : String → List Char → Prop
  | bare {word : List Char} : word ≠ [] →
      (∀ c ∈ word, c.isAlphanum = true ∨ c = '_' ∨ c = '-') → KeyText (String.ofList word) word
  | basic {content cs : List Char} : Quoted content cs → KeyText (String.ofList content) cs
  | literal {content : List Char} : (∀ c ∈ content, Printable c ∧ c ≠ '\'') →
      KeyText (String.ofList content) ('\'' :: (content ++ ['\'']))

theorem isBare_iff {c : Char} : isBare c = true ↔ c.isAlphanum = true ∨ c = '_' ∨ c = '-' := by
  simp [isBare, or_assoc]

theorem ne_of_isBare {c d : Char} (hc : isBare c = true) (hd : isBare d = false) : c ≠ d := by
  rintro rfl
  rw [hc] at hd
  cases hd

theorem cons_ne_of_isBare {c d : Char} {cs ds : List Char} (hc : isBare c = true)
    (hd : isBare d = false) : c :: cs ≠ d :: ds :=
  fun same => ne_of_isBare hc hd (List.cons.inj same).1

theorem not_isGap_of_isBare {c : Char} (h : isBare c = true) : isGap c = false := by
  have notBlank : c ≠ ' ' := ne_of_isBare h rfl
  have notTab : c ≠ '\t' := ne_of_isBare h rfl
  simp [isGap, notBlank, notTab]

theorem isBare_of_isDigit {c : Char} (h : c.isDigit = true) : isBare c = true := by
  simp [isBare, Char.isAlphanum, h]

/-- A bare word is written as it is. -/
theorem KeyText.of_all_isBare {key : String} (written : key.toList ≠ [])
    (bare : key.toList.all isBare = true) : KeyText key key.toList := by
  have word := KeyText.bare written fun c hc => isBare_iff.1 (List.all_eq_true.1 bare c hc)
  rwa [String.ofList_toList] at word

/-- No key begins like a blank or a comment, or with a byte order mark. -/
theorem KeyText.exists_cons {key : String} {cs : List Char} (h : KeyText key cs) :
    ∃ c rest, cs = c :: rest ∧ isGap c = false ∧ c ≠ '#' ∧ c ≠ '\ufeff' := by
  cases h with
  | bare written bare =>
    obtain ⟨c, rest, rfl⟩ := List.exists_cons_of_ne_nil written
    have first := isBare_iff.2 (bare c List.mem_cons_self)
    exact ⟨c, rest, rfl, not_isGap_of_isBare first, ne_of_isBare first rfl,
      ne_of_isBare first rfl⟩
  | basic quoted =>
    obtain ⟨pieces, -, rfl⟩ := quoted
    exact ⟨'"', _, rfl, rfl, by decide, by decide⟩
  | literal _ => exact ⟨'\'', _, rfl, rfl, by decide, by decide⟩

theorem key?_append {key : String} {cs rest : List Char} (h : KeyText key cs)
    (stop : ∀ c ∈ rest.head?, isBare c = false) : key? (cs ++ rest) = some (key.toList, rest) := by
  cases h with
  | bare written bare =>
    have all : ∀ c ∈ cs, isBare c = true := fun c hc => isBare_iff.2 (bare c hc)
    have word := takeWhile_of_append all stop
    have behind := dropWhile_of_append all stop
    obtain ⟨c, more, rfl⟩ := List.exists_cons_of_ne_nil written
    have first := all c List.mem_cons_self
    rw [key?]
    · simp only [word, behind, if_neg written, String.toList_ofList]
    · exact fun _ => cons_ne_of_isBare first rfl
    · exact fun _ => cons_ne_of_isBare first rfl
  | basic quoted =>
    obtain ⟨pieces, spelled, rfl⟩ := quoted
    rw [String.toList_ofList, ← doubleQuoted?_flatten spelled rest]
    simp [key?]
  | @literal content printable =>
    rw [String.toList_ofList, ← singleQuoted?_append printable rest]
    simp [key?]

/-! ## Values -/

/-- A value and how it may be written in the usual format. -/
inductive ValueText : Value → List Char → Prop
  | number (n : Nat) : ValueText (.number n) (Count.digits n)
  | basic {content cs : List Char} : Quoted content cs →
      ValueText (.text (String.ofList content)) cs
  | literal {content : List Char} : (∀ c ∈ content, Printable c ∧ c ≠ '\'') →
      ValueText (.text (String.ofList content)) ('\'' :: (content ++ ['\'']))
  | yes : ValueText .other ['t', 'r', 'u', 'e']
  | no : ValueText .other ['f', 'a', 'l', 's', 'e']

/-- By induction on the number of digits: all but the last are those of a smaller number. -/
theorem head?_digits {n : Nat} (pos : 0 < n) : (Count.digits n).head? ≠ some '0' := by
  rw [Count.digits]
  induction n using Nat.strongRecOn with
  | ind n ih =>
    by_cases lt : n < 10
    · rw [Nat.toDigits_of_lt_base lt, List.head?_cons, ne_eq, Option.some.injEq,
        Nat.digitChar_eq_zero]
      omega
    · rw [Nat.toDigits_of_base_le (by decide) (Nat.le_of_not_lt lt),
        List.head?_append_of_ne_nil _ Nat.toDigits_ne_nil]
      exact ih (n / 10) (by omega) (by omega)

theorem ungrouped?_of_not_mem {digits : List Char} (written : digits ≠ []) (plain : '_' ∉ digits) :
    Radix.ungrouped? digits = some digits := by
  induction digits with
  | nil => exact absurd rfl written
  | cons c rest ih =>
    obtain ⟨first, others⟩ := not_or.1 (List.mem_cons.not.1 plain)
    cases rest with
    | nil => rw [Radix.ungrouped?, if_neg (Ne.symm first)]
    | cons d rest =>
      have second : d ≠ '_' := fun h => others (h ▸ List.mem_cons_self)
      rw [Radix.ungrouped?, if_neg (Ne.symm first), ih (List.cons_ne_nil _ _) others]
      · rfl
      · exact List.cons_ne_nil _ _
      · exact fun more e => second (List.cons.inj e).1

theorem digit?_of_isDigit {c : Char} (h : c.isDigit = true) :
    Radix.digit? 10 c = some (c.toNat - '0'.toNat) := by
  have bounds : '0' ≤ c ∧ c ≤ '9' := by simpa [Char.isDigit, Char.le_def] using h
  have lt : c.toNat - '0'.toNat < 10 := by
    have le : c.toNat ≤ '9'.toNat := bounds.2
    have nine : '9'.toNat = 57 := rfl
    have zero : '0'.toNat = 48 := rfl
    omega
  rw [Radix.digit?, Radix.digitValue?, if_pos bounds]
  exact Option.filter_some_pos (by simpa using lt)

theorem valueAfter?_of_isDigit {digits : List Char} (h : ∀ c ∈ digits, c.isDigit = true) (n : Nat) :
    Radix.valueAfter? 10 n digits = some (Nat.ofDigitChars 10 digits n) := by
  have values : List.Forall₂ (fun c d => Radix.digit? 10 c = some d) digits
      (digits.map fun c => c.toNat - '0'.toNat) :=
    List.forall₂_map_right_iff.2 (List.forall₂_same.2 fun c hc => digit?_of_isDigit (h c hc))
  rw [valueAfter?_eq_foldl values, List.foldl_map, Nat.ofDigitChars_eq_foldl]

theorem decimal?_digits (n : Nat) : decimal? (Count.digits n) = some n := by
  have written := Count.digits_ne_nil n
  have all : ∀ c ∈ Count.digits n, c.isDigit = true := fun c => Count.isDigit_of_mem_digits
  have plain : '_' ∉ Count.digits n := fun h => absurd (all _ h) (by decide)
  have idle : ¬ (Count.digits n ≠ ['0'] ∧ (Count.digits n).head? = some '0') := by
    rintro ⟨notZero, zero⟩
    rcases Nat.eq_zero_or_pos n with rfl | pos
    · exact notZero rfl
    · exact head?_digits pos zero
  rw [decimal?, if_neg idle, Radix.grouped?, ungrouped?_of_not_mem written plain]
  show Radix.value? 10 (Count.digits n) = some n
  rw [Radix.value?, if_neg written, valueAfter?_of_isDigit all]
  exact congrArg some (Count.value_digits n)

theorem word?_digits (n : Nat) : word? (Count.digits n) = some (.number n) := by
  have all : ∀ c ∈ Count.digits n, c.isDigit = true := fun c => Count.isDigit_of_mem_digits
  have read := decimal?_digits n
  generalize Count.digits n = digits at all read
  unfold word?
  split
  · exact absurd (all 'x' (by simp)) (by decide)
  · exact absurd (all 'o' (by simp)) (by decide)
  · exact absurd (all 'b' (by simp)) (by decide)
  · exact absurd (all '+' (by simp)) (by decide)
  · exact absurd (all '-' (by simp)) (by decide)
  · exact absurd (all 't' (by simp)) (by decide)
  · exact absurd (all 'f' (by simp)) (by decide)
  · rw [read]
    rfl

/-- What is not in quotes goes on up to a blank or a comment. -/
theorem value?_word {word tail : List Char} {value : Value} (written : word ≠ [])
    (bare : ∀ c ∈ word, isBare c = true) (read : word? word = some value) (idle : Idle tail)
    (below : List (List Char)) : value? (word ++ tail) below = some (value, tail, below) := by
  have inside : ∀ c ∈ word, (!isGap c && c != '#') = true := by
    intro c hc
    have notComment : c ≠ '#' := ne_of_isBare (bare c hc) rfl
    simp [not_isGap_of_isBare (bare c hc), notComment]
  have outside : ∀ c ∈ tail.head?, (!isGap c && c != '#') = false := by
    intro c hc
    rcases idle.head? c hc with blank | rfl
    · simp [blank]
    · rfl
  have whole := takeWhile_of_append inside outside
  have behind := dropWhile_of_append inside outside
  obtain ⟨d, more, rfl⟩ := List.exists_cons_of_ne_nil written
  have first := bare d List.mem_cons_self
  rw [value?]
  · simp only [whole, behind, read, Option.map_some]
  · exact fun _ => cons_ne_of_isBare first rfl
  · exact fun _ => cons_ne_of_isBare first rfl
  · exact fun _ => cons_ne_of_isBare first rfl
  · exact fun _ => cons_ne_of_isBare first rfl

theorem Idle.ne_quote {tail : List Char} (h : Idle tail) {quote : Char} (notGap : isGap quote = false)
    (notComment : quote ≠ '#') (rest : List Char) : tail ≠ quote :: rest := by
  rintro rfl
  rcases h.head? quote rfl with blank | comment
  · rw [notGap] at blank
    cases blank
  · exact notComment comment

/-- A quote next to the first one is the last, for no third follows. -/
theorem flatten_ne_quotes {content : List Char} {pieces : List (List Char)}
    (h : List.Forall₂ Escaped content pieces) {tail : List Char} (idle : Idle tail)
    (rest : List Char) : pieces.flatten ++ '"' :: tail ≠ '"' :: '"' :: rest := by
  intro quotes
  cases h with
  | nil => exact idle.ne_quote rfl (by decide) _ (List.cons.inj quotes).2
  | cons first _ =>
    rw [List.flatten_cons, List.append_assoc] at quotes
    exact first.ne_quote _ _ quotes

theorem append_ne_quotes {content : List Char} (h : ∀ c ∈ content, Printable c ∧ c ≠ '\'')
    {tail : List Char} (idle : Idle tail) (rest : List Char) :
    content ++ '\'' :: tail ≠ '\'' :: '\'' :: rest := by
  intro quotes
  cases content with
  | nil => exact idle.ne_quote rfl (by decide) _ (List.cons.inj quotes).2
  | cons c content => exact (h c List.mem_cons_self).2 (List.cons.inj quotes).1

theorem value?_basic {content cs : List Char} (quoted : Quoted content cs) {tail : List Char}
    (idle : Idle tail) (below : List (List Char)) :
    value? (cs ++ tail) below = some (.text (String.ofList content), tail, below) := by
  obtain ⟨pieces, spelled, rfl⟩ := quoted
  have read := doubleQuoted?_flatten spelled tail
  have notThree := flatten_ne_quotes spelled idle
  have shape : '"' :: (pieces.flatten ++ ['"']) ++ tail = '"' :: (pieces.flatten ++ '"' :: tail) := by
    simp
  rw [shape]
  generalize pieces.flatten ++ '"' :: tail = cs at read notThree
  rw [value?, read]
  · rfl
  · exact notThree

theorem value?_literal {content : List Char} (h : ∀ c ∈ content, Printable c ∧ c ≠ '\'')
    {tail : List Char} (idle : Idle tail) (below : List (List Char)) :
    value? ('\'' :: (content ++ '\'' :: tail)) below =
      some (.text (String.ofList content), tail, below) := by
  have read := singleQuoted?_append h tail
  have notThree := append_ne_quotes h idle
  generalize content ++ '\'' :: tail = cs at read notThree
  rw [value?, read]
  · rfl
  · exact notThree

theorem ValueText.value?_append {value : Value} {cs tail : List Char} (h : ValueText value cs)
    (idle : Idle tail) (below : List (List Char)) :
    value? (cs ++ tail) below = some (value, tail, below) := by
  cases h with
  | number n =>
    exact value?_word (Count.digits_ne_nil n)
      (fun c hc => isBare_of_isDigit (Count.isDigit_of_mem_digits hc)) (word?_digits n) idle below
  | basic quoted => exact value?_basic quoted idle below
  | literal printable =>
    rw [List.cons_append, List.append_assoc, List.singleton_append]
    exact value?_literal printable idle below
  | yes => exact value?_word (by decide) (List.all_eq_true.1 (by decide)) rfl idle below
  | no => exact value?_word (by decide) (List.all_eq_true.1 (by decide)) rfl idle below

theorem ValueText.exists_cons {value : Value} {cs : List Char} (h : ValueText value cs) :
    ∃ c rest, cs = c :: rest ∧ isGap c = false := by
  cases h with
  | number n =>
    obtain ⟨c, rest, spelled⟩ := List.exists_cons_of_ne_nil (Count.digits_ne_nil n)
    have digit : c.isDigit = true := Count.isDigit_of_mem_digits (spelled ▸ List.mem_cons_self)
    exact ⟨c, rest, spelled, not_isGap_of_isBare (isBare_of_isDigit digit)⟩
  | basic quoted =>
    obtain ⟨pieces, -, rfl⟩ := quoted
    exact ⟨'"', _, rfl, rfl⟩
  | literal _ => exact ⟨'\'', _, rfl, rfl⟩
  | yes => exact ⟨'t', _, rfl, rfl⟩
  | no => exact ⟨'f', _, rfl, rfl⟩

/-! ## Lines -/

/-- A key with blanks around it. -/
def KeyFront (key : String) (front : List Char) : Prop :=
  ∃ gap word behind, Gap gap ∧ KeyText key word ∧ Gap behind ∧ front = gap ++ (word ++ behind)

/-- A line that tells what an entry says. The value may be spelled as a format has it. -/
def EntryLine (spells : Value → List Char → Prop) (entry : Entry) (line : List Char) : Prop :=
  ∃ front gap value tail, KeyFront entry.key front ∧ Gap gap ∧ spells entry.value value ∧
    Idle tail ∧ line = front ++ '=' :: (gap ++ (value ++ tail))

theorem KeyFront.skipGap_append {key : String} {front : List Char} (h : KeyFront key front)
    (rest : List Char) : ∃ word behind, KeyText key word ∧ Gap behind ∧
      skipGap (front ++ '=' :: rest) = word ++ (behind ++ '=' :: rest) := by
  obtain ⟨gap, word, behind, blanks, spelled, more, rfl⟩ := h
  refine ⟨word, behind, spelled, more, ?_⟩
  obtain ⟨c, cs, rfl, notGap, -, -⟩ := spelled.exists_cons
  rw [List.append_assoc, List.append_assoc]
  exact Entry.skipGap_append blanks fun d hd => by cases hd; exact notGap

theorem KeyFront.isTail_append {key : String} {front : List Char} (h : KeyFront key front)
    (rest : List Char) : isTail (front ++ '=' :: rest) = false := by
  obtain ⟨word, behind, spelled, -, skipped⟩ := h.skipGap_append rest
  obtain ⟨c, cs, rfl, -, notComment, -⟩ := spelled.exists_cons
  rw [Entry.isTail, skipped]
  split
  · rename_i e
    cases e
  · rename_i e
    exact absurd (List.cons.inj e).1 notComment
  · rfl

/-- The key of a line is read, whatever is behind the equals sign. -/
theorem KeyFront.ofLine?_append {key : String} {front : List Char} (h : KeyFront key front)
    (rest : List Char) (below : List (List Char)) :
    ofLine? (front ++ '=' :: rest) below =
      (value? (skipGap rest) below).bind fun r =>
        if isTail r.2.1 = true then some (⟨key, r.1⟩, r.2.2) else none := by
  obtain ⟨word, behind, spelled, blanks, skipped⟩ := h.skipGap_append rest
  -- A blank or the equals sign ends a bare key.
  have notBare : ∀ c ∈ (behind ++ '=' :: rest).head?, isBare c = false := by
    intro c hc
    cases behind with
    | nil => cases hc; rfl
    | cons d behind =>
      cases hc
      rcases blanks c List.mem_cons_self with rfl | rfl <;> rfl
  have equals : skipGap (behind ++ '=' :: rest) = '=' :: rest :=
    Entry.skipGap_append blanks fun c hc => by cases hc; rfl
  rw [ofLine?, skipped, key?_append spelled notBare]
  simp only [equals, String.ofList_toList]
  cases value? (skipGap rest) below <;> rfl

theorem EntryLine.ofLine?_eq_some {entry : Entry} {line : List Char}
    (h : EntryLine ValueText entry line) (below : List (List Char)) :
    ofLine? line below = some (entry, below) := by
  obtain ⟨front, gap, value, tail, key, blanks, spelled, idle, rfl⟩ := h
  have skipped : skipGap (gap ++ (value ++ tail)) = value ++ tail := by
    obtain ⟨c, cs, rfl, notGap⟩ := spelled.exists_cons
    exact Entry.skipGap_append blanks fun d hd => by cases hd; exact notGap
  rw [key.ofLine?_append, skipped, spelled.value?_append idle, Option.bind_some,
    if_pos idle.isTail]

/-- An entry can be written if its value can. -/
theorem exists_entryLine {spells : Value → List Char → Prop} {entry : Entry} {value : List Char}
    (spelled : spells entry.value value) : ∃ line, EntryLine spells entry line := by
  have named : KeyFront entry.key ('"' :: ((entry.key.toList.map escape).flatten ++ ['"'])) := by
    have spelled := KeyText.basic (quoted_map_escape entry.key.toList)
    rw [String.ofList_toList] at spelled
    exact ⟨[], _, [], by simp [Gap], spelled, by simp [Gap], (List.append_nil _).symm⟩
  exact ⟨_, _, [], _, [], named, by simp [Gap], spelled, .blank (by simp [Gap]), rfl⟩

/-! ## Lines stay lines -/

theorem Gap.printable {gap : List Char} (h : Gap gap) : ∀ c ∈ gap, Printable c := by
  intro c hc
  rcases h c hc with rfl | rfl <;> decide

theorem Idle.printable {cs : List Char} (h : Idle cs) : ∀ c ∈ cs, Printable c := by
  cases h with
  | blank gap => exact gap.printable
  | comment gap printable =>
    simp only [List.forall_mem_append, List.forall_mem_cons]
    exact ⟨gap.printable, by decide, printable⟩

theorem printable_of_isAlphanum {c : Char} (h : c.isAlphanum = true) : Printable c := by
  have range := toNat_of_isAlphanum h
  exact Or.inr ⟨by omega, by omega⟩

theorem printable_of_literal {content : List Char} (h : ∀ c ∈ content, Printable c ∧ c ≠ '\'') :
    ∀ c ∈ '\'' :: (content ++ ['\'']), Printable c := by
  simp only [List.forall_mem_cons, List.forall_mem_append]
  exact ⟨by decide, fun c hc => (h c hc).1, by decide, List.forall_mem_nil _⟩

theorem KeyText.printable {key : String} {cs : List Char} (h : KeyText key cs) :
    ∀ c ∈ cs, Printable c := by
  cases h with
  | bare _ bare =>
    intro c hc
    rcases bare c hc with alphanumeric | rfl | rfl
    · exact printable_of_isAlphanum alphanumeric
    · decide
    · decide
  | basic quoted => exact quoted.printable
  | literal printable => exact printable_of_literal printable

theorem KeyFront.printable {key : String} {front : List Char} (h : KeyFront key front) :
    ∀ c ∈ front, Printable c := by
  obtain ⟨gap, word, behind, blanks, spelled, more, rfl⟩ := h
  simp only [List.forall_mem_append]
  exact ⟨blanks.printable, spelled.printable, more.printable⟩

theorem ValueText.printable {value : Value} {cs : List Char} (h : ValueText value cs) :
    ∀ c ∈ cs, Printable c := by
  cases h with
  | number n =>
    intro c hc
    refine printable_of_isAlphanum ?_
    rw [Char.isAlphanum, Count.isDigit_of_mem_digits hc, Bool.or_true]
  | basic quoted => exact quoted.printable
  | literal printable => exact printable_of_literal printable
  | yes => exact fun c hc => isPlain_iff.1 (List.all_eq_true.1 (by decide) c hc)
  | no => exact fun c hc => isPlain_iff.1 (List.all_eq_true.1 (by decide) c hc)

theorem EntryLine.printable {entry : Entry} {line : List Char}
    (h : EntryLine ValueText entry line) : ∀ c ∈ line, Printable c := by
  obtain ⟨front, gap, value, tail, key, blanks, spelled, idle, rfl⟩ := h
  simp only [List.forall_mem_append, List.forall_mem_cons]
  exact ⟨key.printable, by decide, blanks.printable, spelled.printable, idle.printable⟩

/-! ## No line begins with a mark -/

theorem ne_mark_append {line rest : List Char} (first : ∀ c ∈ line.head?, c ≠ '\ufeff')
    (behind : ∀ c ∈ rest.head?, c ≠ '\ufeff') : ∀ c ∈ (line ++ rest).head?, c ≠ '\ufeff' := by
  cases line with
  | nil => exact behind
  | cons d line => exact first

theorem Idle.ne_mark {line : List Char} (h : Idle line) : ∀ c ∈ line.head?, c ≠ '\ufeff' := by
  intro c hc
  rcases h.head? c hc with blank | rfl
  · rintro rfl
    exact absurd blank (by decide)
  · decide

theorem EntryLine.ne_mark {spells : Value → List Char → Prop} {entry : Entry} {line : List Char}
    (h : EntryLine spells entry line) : ∀ c ∈ line.head?, c ≠ '\ufeff' := by
  obtain ⟨_, _, _, _, ⟨gap, word, behind, blanks, spelled, -, rfl⟩, -, -, -, rfl⟩ := h
  obtain ⟨d, more, rfl, -, -, notMark⟩ := spelled.exists_cons
  rw [List.append_assoc]
  refine ne_mark_append (Idle.blank blanks).ne_mark fun c hc => ?_
  cases hc
  exact notMark

end Twisty.Settings.Entry
