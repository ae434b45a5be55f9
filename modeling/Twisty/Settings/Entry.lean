import Twisty.Settings.Basic
import Twisty.Text.Lines
import Twisty.Text.Radix

/-! The usual format of settings files. On a line there is a key, an equals sign and a
value, with a comment behind it or alone. Keys are bare words or quoted, values are whole
numbers or quoted texts. Text in double quotes knows escapes; text in single quotes is
taken as it stands. Text in three quotes of a kind may go on over several lines. Tables,
arrays and the other values that no settings have are not read. -/

namespace Twisty

open Text

namespace Settings

namespace Entry

/-- Blanks within a line. -/
def isGap (c : Char) : Bool := c == ' ' || c == '\t'

def skipGap (cs : List Char) : List Char := cs.dropWhile isGap

/-- What may stand in comments and quotes: all but the control characters of ASCII, the
tab excepted. -/
def isPlain (c : Char) : Bool := c == '\t' || (0x20 ≤ c.toNat && c.toNat != 0x7F)

/-- Whether a line has nothing more to say: blanks, or a comment behind them. -/
def isTail (cs : List Char) : Bool :=
  match skipGap cs with
  | [] => true
  | '#' :: comment => comment.all isPlain
  | _ => false

/-! ## Quoted text -/

def shortEscape? : Char → Option Char
  | 'b' => some '\x08'
  | 't' => some '\t'
  | 'n' => some '\n'
  | 'f' => some '\x0c'
  | 'r' => some '\r'
  | '"' => some '"'
  | '\\' => some '\\'
  | _ => none

/-- The character with a code point, if there is one. -/
def character? (n : Nat) : Option Char :=
  if n < 0xD800 ∨ (0xDFFF < n ∧ n < 0x110000) then some (Char.ofNat n) else none

/-- A code point of exactly so many hexadecimal digits. -/
def codePoint? (width : Nat) (cs : List Char) : Option (Char × List Char) :=
  if width ≤ cs.length then
    ((Radix.value? 16 (cs.take width)).bind character?).map fun c => (c, cs.drop width)
  else none

/-- What follows a backslash. -/
def escape? : List Char → Option (Char × List Char)
  | [] => none
  | 'u' :: rest => codePoint? 4 rest
  | 'U' :: rest => codePoint? 8 rest
  | c :: rest => (shortEscape? c).map fun e => (e, rest)

theorem length_le_of_codePoint? {width : Nat} {cs rest : List Char} {c : Char}
    (h : codePoint? width cs = some (c, rest)) : rest.length ≤ cs.length := by
  simp only [codePoint?] at h
  split at h
  · obtain ⟨x, _, hx⟩ := Option.map_eq_some_iff.1 h
    cases hx
    rw [List.length_drop]
    omega
  · cases h

theorem length_lt_of_escape? {cs rest : List Char} {c : Char}
    (h : escape? cs = some (c, rest)) : rest.length < cs.length := by
  unfold escape? at h
  split at h
  · cases h
  · exact Nat.lt_succ_of_le (length_le_of_codePoint? h)
  · exact Nat.lt_succ_of_le (length_le_of_codePoint? h)
  · obtain ⟨x, _, hx⟩ := Option.map_eq_some_iff.1 h
    cases hx
    exact Nat.lt_succ_self _

/-- Text up to a double quote, and what follows it. -/
def doubleQuoted? (cs : List Char) : Option (List Char × List Char) :=
  match cs with
  | [] => none
  | '"' :: rest => some ([], rest)
  | '\\' :: rest =>
    match _h : escape? rest with
    | none => none
    | some (c, rest) => (doubleQuoted? rest).map fun r => (c :: r.1, r.2)
  | c :: rest =>
    if isPlain c then (doubleQuoted? rest).map fun r => (c :: r.1, r.2) else none
termination_by cs.length
decreasing_by
  · have := length_lt_of_escape? _h
    simp only [List.length_cons]
    omega
  · simp

/-- Text up to a single quote, and what follows it. -/
def singleQuoted? : List Char → Option (List Char × List Char)
  | [] => none
  | '\'' :: rest => some ([], rest)
  | c :: rest =>
    if isPlain c then (singleQuoted? rest).map fun r => (c :: r.1, r.2) else none

/-! ## Text over several lines -/

/-- How a line of a long text ends: with the closing quotes, as lines do, or with a
backslash that takes all blanks up to the next character away. -/
inductive Ending
  | closed (rest : List Char)
  | newline
  | joined

/-- Three quotes. Up to two more before them belong to the text. -/
def threeQuotes? (quote : Char) (cs : List Char) : Option (List Char × List Char) :=
  let run := cs.takeWhile (· == quote)
  if 3 ≤ run.length then
    let inside := min 2 (run.length - 3)
    some (List.replicate inside quote, cs.drop (inside + 3))
  else none

/-- What a line of a long text in double quotes has of it. -/
def doubleQuotedLine? (cs : List Char) : Option (List Char × Ending) :=
  match threeQuotes? '"' cs with
  | some (inside, rest) => some (inside, .closed rest)
  | none =>
    match cs with
    | [] => some ([], .newline)
    | '\\' :: rest =>
      if skipGap rest = [] then some ([], .joined)
      else
        match _h : escape? rest with
        | none => none
        | some (c, rest) => (doubleQuotedLine? rest).map fun r => (c :: r.1, r.2)
    | c :: rest =>
      if isPlain c then (doubleQuotedLine? rest).map fun r => (c :: r.1, r.2) else none
termination_by cs.length
decreasing_by
  · have := length_lt_of_escape? _h
    simp only [List.length_cons]
    omega
  · simp

def singleQuotedLine? (cs : List Char) : Option (List Char × Ending) :=
  match threeQuotes? '\'' cs with
  | some (inside, rest) => some (inside, .closed rest)
  | none =>
    match cs with
    | [] => some ([], .newline)
    | c :: rest =>
      if isPlain c then (singleQuotedLine? rest).map fun r => (c :: r.1, r.2) else none

/-- Behind a backslash at the end of a line the next one begins with its first character. -/
def unindented (joined : Bool) (line : List Char) : List Char :=
  if joined then skipGap line else line

/-- A long text, what follows it on its last line, and the lines below. -/
def longText? (part? : List Char → Option (List Char × Ending)) (joined : Bool) :
    List (List Char) → Option (List Char × List Char × List (List Char))
  | [] => none
  | line :: below =>
    if joined ∧ unindented joined line = [] then longText? part? true below
    else
      match part? (unindented joined line) with
      | none => none
      | some (content, .closed rest) => some (content, rest, below)
      | some (content, .newline) =>
        (longText? part? false below).map fun r => (content ++ '\n' :: r.1, r.2)
      | some (content, .joined) =>
        (longText? part? true below).map fun r => (content ++ r.1, r.2)

/-- A line break right behind the opening quotes is no part of the text. -/
def quotedLines? (part? : List Char → Option (List Char × Ending)) (cs : List Char)
    (below : List (List Char)) : Option (List Char × List Char × List (List Char)) :=
  longText? part? false (if cs = [] then below else cs :: below)

theorem length_lt_of_longText? {part? : List Char → Option (List Char × Ending)} {joined : Bool}
    {ls below : List (List Char)} {content rest : List Char}
    (h : longText? part? joined ls = some (content, rest, below)) : below.length < ls.length := by
  induction ls generalizing joined content with
  | nil => cases h
  | cons line ls ih =>
    rw [longText?] at h
    split at h
    · exact Nat.lt_succ_of_lt (ih h)
    split at h
    · cases h
    · cases h
      exact Nat.lt_succ_self _
    · obtain ⟨⟨_, _, _⟩, read, made⟩ := Option.map_eq_some_iff.1 h
      cases made
      exact Nat.lt_succ_of_lt (ih read)
    · obtain ⟨⟨_, _, _⟩, read, made⟩ := Option.map_eq_some_iff.1 h
      cases made
      exact Nat.lt_succ_of_lt (ih read)

theorem length_le_of_quotedLines? {part? : List Char → Option (List Char × Ending)}
    {cs content rest : List Char} {ls below : List (List Char)}
    (h : quotedLines? part? cs ls = some (content, rest, below)) : below.length ≤ ls.length := by
  have shorter := length_lt_of_longText? h
  split at shorter
  · exact Nat.le_of_lt shorter
  · exact Nat.le_of_lt_succ shorter

/-! ## Keys and values -/

def isBare (c : Char) : Bool := c.isAlphanum || c == '_' || c == '-'

def key? : List Char → Option (List Char × List Char)
  | '"' :: rest => doubleQuoted? rest
  | '\'' :: rest => singleQuoted? rest
  | cs =>
    let word := cs.takeWhile isBare
    if word = [] then none else some (word, cs.dropWhile isBare)

/-- Decimal digits do not begin with an idle zero. -/
def decimal? (digits : List Char) : Option Nat :=
  if digits ≠ ['0'] ∧ digits.head? = some '0' then none else Radix.grouped? 10 digits

/-- A number, a negative one, or a truth value. -/
def word? : List Char → Option Value
  | '0' :: 'x' :: digits => (Radix.grouped? 16 digits).map .number
  | '0' :: 'o' :: digits => (Radix.grouped? 8 digits).map .number
  | '0' :: 'b' :: digits => (Radix.grouped? 2 digits).map .number
  | '+' :: digits => (decimal? digits).map .number
  | '-' :: digits => (decimal? digits).map fun n => if n = 0 then .number 0 else .other
  | 't' :: rest => if rest = ['r', 'u', 'e'] then some .other else none
  | 'f' :: rest => if rest = ['a', 'l', 's', 'e'] then some .other else none
  | digits => (decimal? digits).map .number

/-- A value, what follows it on its line, and the lines below. -/
def value? (cs : List Char) (below : List (List Char)) :
    Option (Value × List Char × List (List Char)) :=
  match cs with
  | '"' :: '"' :: '"' :: rest =>
    (quotedLines? doubleQuotedLine? rest below).map fun r => (.text (String.ofList r.1), r.2)
  | '\'' :: '\'' :: '\'' :: rest =>
    (quotedLines? singleQuotedLine? rest below).map fun r => (.text (String.ofList r.1), r.2)
  | '"' :: rest =>
    (doubleQuoted? rest).map fun r => (.text (String.ofList r.1), r.2, below)
  | '\'' :: rest =>
    (singleQuoted? rest).map fun r => (.text (String.ofList r.1), r.2, below)
  | cs =>
    let inWord : Char → Bool := fun c => !isGap c && c != '#'
    (word? (cs.takeWhile inWord)).map fun value => (value, cs.dropWhile inWord, below)

/-- A value that is read from one line leaves those below as they are. -/
theorem length_le_of_map {α : Type} {found : Option α} {values : α → Value}
    {behind : α → List Char} {rest : List Char} {ls below : List (List Char)} {value : Value}
    (h : (found.map fun x => (values x, behind x, ls)) = some (value, rest, below)) :
    below.length ≤ ls.length := by
  obtain ⟨x, -, made⟩ := Option.map_eq_some_iff.1 h
  cases made
  exact Nat.le_refl _

theorem length_le_of_value? {cs rest : List Char} {ls below : List (List Char)} {value : Value}
    (h : value? cs ls = some (value, rest, below)) : below.length ≤ ls.length := by
  unfold value? at h
  split at h
  · obtain ⟨⟨_, _, _⟩, read, made⟩ := Option.map_eq_some_iff.1 h
    cases made
    exact length_le_of_quotedLines? read
  · obtain ⟨⟨_, _, _⟩, read, made⟩ := Option.map_eq_some_iff.1 h
    cases made
    exact length_le_of_quotedLines? read
  · exact length_le_of_map h
  · exact length_le_of_map h
  · exact length_le_of_map h

/-- An entry and the lines below it. -/
def ofLine? (line : List Char) (below : List (List Char)) : Option (Entry × List (List Char)) :=
  match key? (skipGap line) with
  | none => none
  | some (key, rest) =>
    match skipGap rest with
    | '=' :: rest =>
      match value? (skipGap rest) below with
      | some (value, rest, below) =>
        if isTail rest then some (⟨String.ofList key, value⟩, below) else none
      | none => none
    | _ => none

theorem length_le_of_ofLine? {line : List Char} {ls below : List (List Char)} {entry : Entry}
    (h : ofLine? line ls = some (entry, below)) : below.length ≤ ls.length := by
  unfold ofLine? at h
  split at h
  · cases h
  · split at h
    · split at h
      · rename_i read
        split at h
        · cases h
          exact length_le_of_value? read
        · cases h
      · cases h
    · cases h

/-- The entries of some lines, of which any may have none. -/
def ofLines? : List (List Char) → Option (List Entry)
  | [] => some []
  | line :: below =>
    if isTail line then ofLines? below
    else
      match _h : ofLine? line below with
      | none => none
      | some (entry, below) => (ofLines? below).map (entry :: ·)
termination_by ls => ls.length
decreasing_by
  · exact Nat.lt_succ_self _
  · exact Nat.lt_succ_of_le (length_le_of_ofLine? _h)

/-- A byte order mark may stand before the first line. -/
def withoutMark : List Char → List Char
  | '\ufeff' :: rest => rest
  | cs => cs

def read? : Format := fun text => ofLines? (lines (withoutMark text.toList))

end Entry

/-- What is loaded from files in the usual format. -/
def load? (named : Option File) (usualFile : File) : Option Settings :=
  Format.load? Entry.read? named usualFile

end Settings

end Twisty
