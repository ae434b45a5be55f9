import Twisty.Settings.Entry
import Mathlib.Data.List.Forall2

/-! Text in quotes, as it may be written. Between double quotes each character stands for
itself or behind a backslash, where quotes, backslashes and control characters must. However a
text is written, it is read back, and there is a way to write every text. -/

namespace Twisty.Settings.Entry

open Text

/-! ## Characters -/

/-- What can stand for itself in comments and quotes. -/
def Printable (c : Char) : Prop := c = '\t' ∨ (0x20 ≤ c.toNat ∧ c.toNat ≠ 0x7F)

instance : DecidablePred Printable := fun c =>
  inferInstanceAs (Decidable (c = '\t' ∨ (0x20 ≤ c.toNat ∧ c.toNat ≠ 0x7F)))

theorem isPlain_iff {c : Char} : isPlain c = true ↔ Printable c := by
  simp [isPlain, Printable]

/-! ## Escapes -/

/-- The letters that stand behind a backslash for another character, or for themselves. -/
def shortForms : List (Char × Char) :=
  [('b', '\x08'), ('t', '\t'), ('n', '\n'), ('f', '\x0c'), ('r', '\r'), ('"', '"'), ('\\', '\\')]

/-- The letters that stand before so many hexadecimal digits. -/
def longForms : List (Char × Nat) := [('u', 4), ('U', 8)]

/-- A digit in either case, and what it stands for. -/
def IsHexDigit (c : Char) (d : Nat) : Prop := d < 16 ∧ (c = d.digitChar ∨ c = d.digitChar.toUpper)

def ofHex (values : List Nat) : Nat := values.foldl (fun n d => 16 * n + d) 0

/-- A character and how it may be written between double quotes. -/
inductive Escaped : Char → List Char → Prop
  | plain {c : Char} : Printable c → c ≠ '"' → c ≠ '\\' → Escaped c [c]
  | short {c letter : Char} : (letter, c) ∈ shortForms → Escaped c ['\\', letter]
  | long {c letter : Char} {digits : List Char} {values : List Nat} :
      (letter, digits.length) ∈ longForms → List.Forall₂ IsHexDigit digits values →
      ofHex values = c.toNat → Escaped c ('\\' :: letter :: digits)

theorem digit?_of_isHexDigit {c : Char} {d : Nat} (h : IsHexDigit c d) :
    Radix.digit? 16 c = some d := by
  have each : ∀ d < 16, Radix.digit? 16 d.digitChar = some d ∧
      Radix.digit? 16 d.digitChar.toUpper = some d := by decide
  obtain ⟨lt, rfl | rfl⟩ := h
  · exact (each d lt).1
  · exact (each d lt).2

/-- Digits are read one after another, from the first on. -/
theorem valueAfter?_eq_foldl {base : Nat} {digits : List Char} {values : List Nat}
    (h : List.Forall₂ (fun c d => Radix.digit? base c = some d) digits values) (n : Nat) :
    Radix.valueAfter? base n digits = some (values.foldl (fun n d => base * n + d) n) := by
  induction h generalizing n with
  | nil => rfl
  | cons first _ ih =>
    rw [Radix.valueAfter?, first]
    exact ih _

theorem character?_toNat (c : Char) : character? c.toNat = some c := by
  have valid : c.toNat < 0xD800 ∨ (0xDFFF < c.toNat ∧ c.toNat < 0x110000) := c.valid
  rw [character?, if_pos valid, Char.ofNat_toNat]

theorem codePoint?_append {c : Char} {digits : List Char} {values : List Nat}
    (written : digits ≠ []) (spelled : List.Forall₂ IsHexDigit digits values)
    (value : ofHex values = c.toNat) (rest : List Char) :
    codePoint? digits.length (digits ++ rest) = some (c, rest) := by
  have read : Radix.value? 16 digits = some c.toNat := by
    have digits := spelled.imp fun _ _ => digit?_of_isHexDigit
    rw [Radix.value?, if_neg written, valueAfter?_eq_foldl digits, ← value, ofHex]
  rw [codePoint?, if_pos (by simp), List.take_left, List.drop_left, read, Option.bind_some,
    character?_toNat, Option.map_some]

theorem escape?_short {c letter : Char} (h : (letter, c) ∈ shortForms) (rest : List Char) :
    escape? (letter :: rest) = some (c, rest) := by
  simp only [shortForms, List.mem_cons, Prod.mk.injEq, List.not_mem_nil, or_false] at h
  rcases h with ⟨rfl, rfl⟩ | ⟨rfl, rfl⟩ | ⟨rfl, rfl⟩ | ⟨rfl, rfl⟩ | ⟨rfl, rfl⟩ | ⟨rfl, rfl⟩ |
    ⟨rfl, rfl⟩ <;> rfl

theorem escape?_long {c letter : Char} {digits : List Char} {values : List Nat}
    (h : (letter, digits.length) ∈ longForms) (spelled : List.Forall₂ IsHexDigit digits values)
    (value : ofHex values = c.toNat) (rest : List Char) :
    escape? (letter :: (digits ++ rest)) = some (c, rest) := by
  simp only [longForms, List.mem_cons, Prod.mk.injEq, List.not_mem_nil, or_false] at h
  have written : digits ≠ [] := by rintro rfl; simp at h
  have read := codePoint?_append written spelled value rest
  rcases h with ⟨rfl, four⟩ | ⟨rfl, eight⟩
  · rwa [four] at read
  · rwa [eight] at read

theorem doubleQuoted?_quote (rest : List Char) : doubleQuoted? ('"' :: rest) = some ([], rest) := by
  rw [doubleQuoted?]

theorem doubleQuoted?_plain {c : Char} (printable : Printable c) (notQuote : c ≠ '"')
    (notBackslash : c ≠ '\\') (rest : List Char) :
    doubleQuoted? (c :: rest) = (doubleQuoted? rest).map fun r => (c :: r.1, r.2) := by
  rw [doubleQuoted?, if_pos (isPlain_iff.2 printable)]
  · exact notQuote
  · exact notBackslash

theorem doubleQuoted?_escape {c : Char} {cs rest : List Char} (h : escape? cs = some (c, rest)) :
    doubleQuoted? ('\\' :: cs) = (doubleQuoted? rest).map fun r => (c :: r.1, r.2) := by
  rw [doubleQuoted?]
  split
  · rename_i missing
    rw [h] at missing
    cases missing
  · rename_i found
    rw [h] at found
    cases found
    rfl

theorem doubleQuoted?_escaped {c : Char} {piece : List Char} (h : Escaped c piece)
    (rest : List Char) :
    doubleQuoted? (piece ++ rest) = (doubleQuoted? rest).map fun r => (c :: r.1, r.2) := by
  cases h with
  | plain printable notQuote notBackslash =>
    exact doubleQuoted?_plain printable notQuote notBackslash rest
  | short letter => exact doubleQuoted?_escape (escape?_short letter rest)
  | long letter spelled value => exact doubleQuoted?_escape (escape?_long letter spelled value rest)

/-- No quote stands for itself. -/
theorem Escaped.ne_quote {c : Char} {piece : List Char} (h : Escaped c piece)
    (rest more : List Char) : piece ++ rest ≠ '"' :: more := by
  intro quote
  cases h with
  | plain _ notQuote _ => exact notQuote (List.cons.inj quote).1
  | short _ => exact absurd (List.cons.inj quote).1 (by decide)
  | long _ _ _ => exact absurd (List.cons.inj quote).1 (by decide)

/-- A text in double quotes. -/
def Quoted (content cs : List Char) : Prop :=
  ∃ pieces, List.Forall₂ Escaped content pieces ∧ cs = '"' :: (pieces.flatten ++ ['"'])

theorem doubleQuoted?_flatten {content : List Char} {pieces : List (List Char)}
    (h : List.Forall₂ Escaped content pieces) (rest : List Char) :
    doubleQuoted? (pieces.flatten ++ '"' :: rest) = some (content, rest) := by
  induction h with
  | nil => exact doubleQuoted?_quote rest
  | cons first _ ih =>
    rw [List.flatten_cons, List.append_assoc, doubleQuoted?_escaped first, ih]
    rfl

theorem singleQuoted?_append {content : List Char} (h : ∀ c ∈ content, Printable c ∧ c ≠ '\'')
    (rest : List Char) : singleQuoted? (content ++ '\'' :: rest) = some (content, rest) := by
  induction content with
  | nil => rfl
  | cons c content ih =>
    obtain ⟨⟨printable, notQuote⟩, later⟩ := List.forall_mem_cons.1 h
    rw [List.cons_append, singleQuoted?, if_pos (isPlain_iff.2 printable), ih later]
    · rfl
    · exact notQuote

/-! ## Every text can be written -/

/-- One way to write a character. -/
def escape (c : Char) : List Char :=
  if c = '"' ∨ c = '\\' then ['\\', c]
  else if Printable c then [c]
  else ['\\', 'u', '0', '0', (c.toNat / 16).digitChar, (c.toNat % 16).digitChar]

theorem escaped_escape (c : Char) : Escaped c (escape c) := by
  unfold escape
  split
  · rename_i special
    rcases special with rfl | rfl
    · exact .short (by decide)
    · exact .short (by decide)
  rename_i notSpecial
  obtain ⟨notQuote, notBackslash⟩ := not_or.1 notSpecial
  split
  · rename_i printable
    exact .plain printable notQuote notBackslash
  · rename_i control
    -- The code points of control characters have two digits, so two zeros stand before them.
    have lt : c.toNat < 128 := by
      have small := not_or.1 control
      omega
    refine @Escaped.long c 'u' _ [0, 0, c.toNat / 16, c.toNat % 16] (by simp [longForms]) ?_ ?_
    · refine .cons ⟨by decide, Or.inl rfl⟩ (.cons ⟨by decide, Or.inl rfl⟩
        (.cons ⟨by omega, Or.inl rfl⟩ (.cons ⟨by omega, Or.inl rfl⟩ .nil)))
    · simp only [ofHex, List.foldl_cons, List.foldl_nil]
      omega

theorem quoted_map_escape (content : List Char) :
    Quoted content ('"' :: ((content.map escape).flatten ++ ['"'])) :=
  ⟨_, List.forall₂_map_right_iff.2 (List.forall₂_same.2 fun c _ => escaped_escape c), rfl⟩

/-! ## Quotes stay on their line -/

theorem printable_of_isHexDigit {digits : List Char} {values : List Nat}
    (h : List.Forall₂ IsHexDigit digits values) : ∀ c ∈ digits, Printable c := by
  have each : ∀ d < 16, Printable d.digitChar ∧ Printable d.digitChar.toUpper := by decide
  induction h with
  | nil => exact List.forall_mem_nil _
  | cons first _ ih =>
    refine List.forall_mem_cons.2 ⟨?_, ih⟩
    obtain ⟨lt, rfl | rfl⟩ := first
    · exact (each _ lt).1
    · exact (each _ lt).2

theorem Escaped.printable {c : Char} {piece : List Char} (h : Escaped c piece) :
    ∀ d ∈ piece, Printable d := by
  cases h with
  | plain printable _ _ => exact List.forall_mem_singleton.2 printable
  | short letter =>
    have each : ∀ form ∈ shortForms, Printable form.1 := by decide
    exact List.forall_mem_cons.2 ⟨by decide, List.forall_mem_singleton.2 (each _ letter)⟩
  | long letter spelled _ =>
    have each : ∀ form ∈ longForms, Printable form.1 := by decide
    exact List.forall_mem_cons.2 ⟨by decide, List.forall_mem_cons.2
      ⟨each _ letter, printable_of_isHexDigit spelled⟩⟩

theorem Quoted.printable {content cs : List Char} (h : Quoted content cs) :
    ∀ c ∈ cs, Printable c := by
  obtain ⟨pieces, spelled, rfl⟩ := h
  have inside : ∀ piece ∈ pieces, ∀ c ∈ piece, Printable c := by
    induction spelled with
    | nil => exact List.forall_mem_nil _
    | cons first _ ih => exact List.forall_mem_cons.2 ⟨first.printable, ih⟩
  simp only [List.forall_mem_cons, List.forall_mem_append, List.mem_flatten]
  refine ⟨by decide, ?_, by decide, List.forall_mem_nil _⟩
  rintro c ⟨piece, hpiece, hc⟩
  exact inside piece hpiece c hc

end Twisty.Settings.Entry
