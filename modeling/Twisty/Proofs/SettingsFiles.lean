import Twisty.Proofs.EntryLines
import Twisty.Proofs.Loading

/-! Settings files. What is chosen may be written in any order, each on a line of its own, with
blank lines and comments anywhere, and is then loaded as it was chosen, with the rest as usual.
A line with another key, or with one that is there already, makes a file that is not loaded.
This is so in every format in which lines of this kind are read as what they say. -/

namespace Twisty

open Text

/-! ## Lines of a text -/

namespace Text

/-- Lines with a newline behind each, and perhaps a carriage return before it. Behind the last
one is nothing, so a text that ends with a newline has a last line that is empty. -/
inductive Joined : List (List Char) → List Char → Prop
  | last (line : List Char) : Joined [line] line
  | newline {line : List Char} {rest : List (List Char)} {cs : List Char} :
      Joined rest cs → Joined (line :: rest) (line ++ '\n' :: cs)
  | carriageReturn {line : List Char} {rest : List (List Char)} {cs : List Char} :
      Joined rest cs → Joined (line :: rest) (line ++ '\r' :: '\n' :: cs)

def Unbroken (line : List Char) : Prop := ∀ c ∈ line, c ≠ '\n' ∧ c ≠ '\r'

instance : DecidablePred Unbroken := fun line =>
  List.decidableBAll (fun c => c ≠ '\n' ∧ c ≠ '\r') line

theorem lines_cons {c : Char} (notNewline : c ≠ '\n') (notReturn : c ≠ '\r') (cs : List Char) :
    lines (c :: cs) = consLine c (lines cs) := by
  rw [lines]
  · exact notNewline
  · exact fun _ same => absurd same notReturn

/-- What a line is put before is kept behind it. -/
theorem lines_append {line cs : List Char} {rest : List (List Char)} (unbroken : Unbroken line)
    (next : lines cs = [] :: rest) : lines (line ++ cs) = line :: rest := by
  induction line with
  | nil => exact next
  | cons c line ih =>
    obtain ⟨⟨notNewline, notReturn⟩, others⟩ := List.forall_mem_cons.1 unbroken
    rw [List.cons_append, lines_cons notNewline notReturn, ih others]
    rfl

theorem lines_of_joined {ls : List (List Char)} {cs : List Char} (h : Joined ls cs)
    (unbroken : ∀ line ∈ ls, Unbroken line) : lines cs = ls := by
  induction h with
  | last line =>
    have read := @lines_append line [] [] (unbroken line List.mem_cons_self) rfl
    rwa [List.append_nil] at read
  | @newline line rest cs _ ih =>
    obtain ⟨first, others⟩ := List.forall_mem_cons.1 unbroken
    exact lines_append first (by rw [lines, ih others])
  | @carriageReturn line rest cs _ ih =>
    obtain ⟨first, others⟩ := List.forall_mem_cons.1 unbroken
    exact lines_append first (by rw [lines, ih others])

theorem exists_joined (line : List Char) (rest : List (List Char)) :
    ∃ cs, Joined (line :: rest) cs := by
  induction rest generalizing line with
  | nil => exact ⟨line, .last line⟩
  | cons next rest ih =>
    obtain ⟨cs, joined⟩ := ih next
    exact ⟨_, .newline joined⟩

theorem withoutMark_of_joined {ls : List (List Char)} {cs : List Char} (h : Joined ls cs)
    (noMark : ∀ line ∈ ls, ∀ c ∈ line.head?, c ≠ '\ufeff') :
    Settings.Entry.withoutMark cs = cs := by
  have first : ∀ c ∈ cs.head?, c ≠ '\ufeff' := by
    cases h with
    | last => exact noMark _ List.mem_cons_self
    | newline _ =>
      exact Settings.Entry.ne_mark_append (noMark _ List.mem_cons_self)
        fun c hc => by cases hc; decide
    | carriageReturn _ =>
      exact Settings.Entry.ne_mark_append (noMark _ List.mem_cons_self)
        fun c hc => by cases hc; decide
  unfold Settings.Entry.withoutMark
  split
  · exact absurd rfl (first _ rfl)
  · rfl

end Text

namespace Settings

open Entry

/-! ## Entries of some lines -/

variable {spells : Value → List Char → Prop}

/-- Entries in their order, each on a line of its own, and lines that say nothing anywhere. -/
inductive Listing (spells : Value → List Char → Prop) : List Entry → List (List Char) → Prop
  | nil : Listing spells [] []
  | idle {entries : List Entry} {rest : List (List Char)} {line : List Char} :
      Idle line → Listing spells entries rest → Listing spells entries (line :: rest)
  | entry {entries : List Entry} {rest : List (List Char)} {entry : Entry} {line : List Char} :
      EntryLine spells entry line → Listing spells entries rest →
      Listing spells (entry :: entries) (line :: rest)

/-- One line more says one entry more. -/
theorem Listing.insert {entries : List Entry} {entry : Entry} {before after : List (List Char)}
    {line : List Char} (h : Listing spells entries (before ++ after))
    (written : EntryLine spells entry line) :
    ∃ more, Listing spells more (before ++ line :: after) ∧ more.Perm (entry :: entries) := by
  induction before generalizing entries with
  | nil => exact ⟨_, .entry written h, List.Perm.refl _⟩
  | cons first before ih =>
    cases h with
    | idle blank h =>
      obtain ⟨more, listed, order⟩ := ih h
      exact ⟨more, .idle blank listed, order⟩
    | entry other h =>
      obtain ⟨more, listed, order⟩ := ih h
      exact ⟨_, .entry other listed, (order.cons _).trans (List.Perm.swap _ _ _)⟩

/-- What is relied on of a format, in which values are spelled in some way. Decimal digits and
texts in double quotes are among the ways. Lines with entries are accepted if no key is there
twice, and if they are accepted, with or without that, it is these entries that are read. -/
structure Conforms (format : Format) (spells : Value → List Char → Prop) : Prop where
  decimal {n : Nat} : n < 2 ^ 64 → spells (.number n) (Count.digits n)
  basic {content cs : List Char} : Quoted content cs → spells (.text (String.ofList content)) cs
  accepts {entries : List Entry} {ls : List (List Char)} {text : String} :
    Listing spells entries ls → Joined ls text.toList → (entries.map Entry.key).Nodup →
      (format text).isSome = true
  faithful {entries found : List Entry} {ls : List (List Char)} {text : String} :
    Listing spells entries ls → Joined ls text.toList → format text = some found →
      found.Perm entries

/-! ## The usual format -/

theorem unbroken_of_printable {line : List Char} (h : ∀ c ∈ line, Printable c) :
    Unbroken line := by
  intro c hc
  have printable := h c hc
  constructor <;> rintro rfl <;> exact absurd printable (by decide)

theorem Listing.unbroken {entries : List Entry} {ls : List (List Char)}
    (h : Listing ValueText entries ls) : ∀ line ∈ ls, Unbroken line := by
  induction h with
  | nil => exact List.forall_mem_nil _
  | idle line _ ih => exact List.forall_mem_cons.2 ⟨unbroken_of_printable line.printable, ih⟩
  | entry line _ ih => exact List.forall_mem_cons.2 ⟨unbroken_of_printable line.printable, ih⟩

theorem Listing.ne_mark {entries : List Entry} {ls : List (List Char)}
    (h : Listing spells entries ls) : ∀ line ∈ ls, ∀ c ∈ line.head?, c ≠ '\ufeff' := by
  induction h with
  | nil => exact List.forall_mem_nil _
  | idle line _ ih => exact List.forall_mem_cons.2 ⟨line.ne_mark, ih⟩
  | entry line _ ih => exact List.forall_mem_cons.2 ⟨line.ne_mark, ih⟩

theorem Listing.ofLines? {entries : List Entry} {ls : List (List Char)}
    (h : Listing ValueText entries ls) : Entry.ofLines? ls = some entries := by
  induction h with
  | nil => rw [Entry.ofLines?]
  | idle line _ ih => rw [Entry.ofLines?, if_pos line.isTail, ih]
  | @entry _ below entry _ line _ ih =>
    have spelled := line.ofLine?_eq_some below
    obtain ⟨front, _, _, _, key, -, -, -, rfl⟩ := line
    rw [Entry.ofLines?, key.isTail_append, if_neg (by decide)]
    split
    · rename_i none
      rw [spelled] at none
      cases none
    · rename_i found
      rw [spelled] at found
      cases found
      rw [ih, Option.map_some]

theorem Listing.read? {entries : List Entry} {ls : List (List Char)} {text : String}
    (h : Listing ValueText entries ls) (joined : Joined ls text.toList) :
    Entry.read? text = some entries := by
  rw [Entry.read?, withoutMark_of_joined joined h.ne_mark, lines_of_joined joined h.unbroken,
    h.ofLines?]

theorem conforms_read? : Conforms Entry.read? ValueText where
  decimal _ := .number _
  basic quoted := .basic quoted
  accepts listed joined _ := by
    rw [listed.read? joined]
    rfl
  faithful listed joined found := by
    cases found.symm.trans (listed.read? joined)
    exact List.Perm.refl _

/-! ## What is chosen -/

/-- What is chosen for a settings file. The rest is left out of it. -/
structure Choice where
  size : Option UInt64
  colors : Option String
  scrambleLength : Option UInt64

namespace Choice

/-- What a file has to say. -/
def entries (choice : Choice) : List Entry :=
  (choice.size.map fun n => ⟨"size", .number n.toNat⟩).toList ++
    (choice.colors.map fun content => ⟨"colors", .text content⟩).toList ++
    (choice.scrambleLength.map fun n => ⟨"scramble_length", .number n.toNat⟩).toList

/-- What is chosen, and for the rest what is usual. -/
def settings (choice : Choice) : Settings :=
  ⟨(choice.size.map UInt64.toNat).getD 3, choice.colors.getD "wgrboy",
    choice.scrambleLength.map UInt64.toNat⟩

theorem mem_entries_cases {choice : Choice} {entry : Entry} (h : entry ∈ choice.entries) :
    (∃ n : UInt64, entry = ⟨"size", .number n.toNat⟩) ∨
      (∃ content, entry = ⟨"colors", .text content⟩) ∨
      ∃ n : UInt64, entry = ⟨"scramble_length", .number n.toNat⟩ := by
  simp only [entries, List.mem_append, Option.mem_toList, Option.map_eq_some_iff] at h
  rcases h with (⟨n, -, rfl⟩ | ⟨content, -, rfl⟩) | ⟨n, -, rfl⟩
  · exact Or.inl ⟨n, rfl⟩
  · exact Or.inr (Or.inl ⟨content, rfl⟩)
  · exact Or.inr (Or.inr ⟨n, rfl⟩)

theorem sets_of_mem_entries {choice : Choice} {entry : Entry} (h : entry ∈ choice.entries) :
    Sets entry := by
  have le : ∀ n : UInt64, n.toNat ≤ Count.limit := fun n => Nat.le_of_lt_succ n.toNat_lt
  rcases mem_entries_cases h with ⟨n, rfl⟩ | ⟨content, rfl⟩ | ⟨n, rfl⟩
  · exact .size (le n)
  · exact .colors _
  · exact .scrambleLength (le n)

theorem nodup_entries (choice : Choice) : (choice.entries.map Entry.key).Nodup := by
  obtain ⟨size, colors, length⟩ := choice
  cases size <;> cases colors <;> cases length <;> simp [entries]

theorem updated_entries (choice : Choice) : usual.updated choice.entries = choice.settings := by
  obtain ⟨size, colors, length⟩ := choice
  cases size <;> cases colors <;> cases length <;> rfl

end Choice

/-! ## Whole files -/

def keys : List String := ["size", "colors", "scramble_length"]

theorem key_mem_keys {entry : Entry} (h : Sets entry) : entry.key ∈ keys := by
  cases h <;> simp [keys]

variable {format : Format}

/-- What is loaded from a text, if anything, be it in the file that is named or in the usual
one. -/
def Loads (format : Format) (text : String) (settings : Option Settings) : Prop :=
  (∀ usualFile, format.load? (some (.text text)) usualFile = settings) ∧
    format.load? none (.text text) = settings

theorem loads_of_parse? {text : String} {settings : Option Settings}
    (h : format.parse? text = settings) : Loads format text settings :=
  ⟨fun _ => h, h⟩

theorem Conforms.exists_value (conforms : Conforms format spells) {entry : Entry}
    (sets : Sets entry) : ∃ value, spells entry.value value := by
  have lt : ∀ {n : Nat}, n ≤ Count.limit → n < 2 ^ 64 := fun le => Nat.lt_succ_of_le le
  cases sets with
  | size le => exact ⟨_, conforms.decimal (lt le)⟩
  | colors content =>
    have spelled := conforms.basic (quoted_map_escape content.toList)
    rw [String.ofList_toList] at spelled
    exact ⟨_, spelled⟩
  | scrambleLength le => exact ⟨_, conforms.decimal (lt le)⟩

theorem Conforms.exists_listing (conforms : Conforms format spells) {entries : List Entry}
    (sets : ∀ entry ∈ entries, Sets entry) : ∃ ls, Listing spells entries ls := by
  induction entries with
  | nil => exact ⟨[], .nil⟩
  | cons entry rest ih =>
    obtain ⟨first, others⟩ := List.forall_mem_cons.1 sets
    obtain ⟨value, spelled⟩ := conforms.exists_value first
    obtain ⟨line, written⟩ := exists_entryLine spelled
    obtain ⟨ls, listed⟩ := ih others
    exact ⟨line :: ls, .entry written listed⟩

theorem Conforms.exists_written (conforms : Conforms format spells) {choice : Choice}
    {entries : List Entry} (order : entries.Perm choice.entries) :
    ∃ ls text, Listing spells entries ls ∧ Joined ls (String.toList text) := by
  obtain ⟨ls, listed⟩ := conforms.exists_listing fun entry h =>
    Choice.sets_of_mem_entries (order.mem_iff.1 h)
  have idle : Idle [] := .blank (by simp [Gap])
  obtain ⟨cs, joined⟩ := exists_joined [] ls
  exact ⟨[] :: ls, String.ofList cs, .idle idle listed, by rwa [String.toList_ofList]⟩

theorem Conforms.parse?_listing (conforms : Conforms format spells) {choice : Choice}
    {entries : List Entry} {ls : List (List Char)} {text : String}
    (order : entries.Perm choice.entries) (listed : Listing spells entries ls)
    (joined : Joined ls text.toList) : format.parse? text = some choice.settings := by
  have distinct : (choice.entries.map Entry.key).Nodup := choice.nodup_entries
  obtain ⟨found, read⟩ := Option.isSome_iff_exists.1
    (conforms.accepts listed joined ((order.map _).nodup_iff.2 distinct))
  have all : found.Perm choice.entries := (conforms.faithful listed joined read).trans order
  have once : (found.map Entry.key).Nodup := (all.map _).nodup_iff.2 distinct
  refine parse?_eq_some_iff.2 ⟨found, read, once, fun entry h => ?_, ?_⟩
  · exact Choice.sets_of_mem_entries (all.mem_iff.1 h)
  · rw [updated_perm all once, choice.updated_entries]

/-- If a file with such an entry were loaded, then the entry would set something that no other
entry sets. -/
theorem Conforms.parse?_stray (conforms : Conforms format spells) {entries more : List Entry}
    {stray : Entry} {ls : List (List Char)} {text : String} (order : more.Perm (stray :: entries))
    (unfit : stray.key ∉ keys ∨ stray.key ∈ entries.map Entry.key)
    (listed : Listing spells more ls) (joined : Joined ls text.toList) :
    format.parse? text = none := by
  rw [Option.eq_none_iff_forall_ne_some]
  intro settings loaded
  obtain ⟨found, read, once, sets, -⟩ := parse?_eq_some_iff.1 loaded
  have all : found.Perm (stray :: entries) := (conforms.faithful listed joined read).trans order
  rcases unfit with unknown | again
  · exact unknown (key_mem_keys (sets stray (all.mem_iff.2 List.mem_cons_self)))
  · have apart : ((stray :: entries).map Entry.key).Nodup := (all.map _).nodup_iff.1 once
    exact (List.nodup_cons.1 apart).1 again

/-- There is a file for every choice, in every order, and however it is written, what was
chosen is loaded. One more entry on a line of its own, anywhere in it, with a key that means
nothing or is there already, and nothing is loaded. -/
theorem loads_written (conforms : Conforms format spells) (choice : Choice)
    {entries : List Entry} (order : entries.Perm choice.entries) :
    (∃ ls text, Listing spells entries ls ∧ Joined ls (String.toList text)) ∧
    (∀ ls text, Listing spells entries ls → Joined ls text.toList →
      Loads format text (some choice.settings)) ∧
    ∀ before after stray line text, Listing spells entries (before ++ after) →
      EntryLine spells stray line → (stray.key ∉ keys ∨ stray.key ∈ entries.map Entry.key) →
      Joined (before ++ line :: after) text.toList → Loads format text none := by
  refine ⟨conforms.exists_written order, fun ls text listed joined => ?_,
    fun before after stray line text listed written unfit joined => ?_⟩
  · exact loads_of_parse? (conforms.parse?_listing order listed joined)
  · obtain ⟨more, all, one⟩ := listed.insert written
    exact loads_of_parse? (conforms.parse?_stray one unfit all joined)

/-- Two texts for one choice. Of the characters that are chosen as colors, none can stand for
itself. The second text has another line for the colors. -/
theorem loads_written_escaped :
    Conforms Entry.read? ValueText ∧
    Loads Entry.read?
      "# long\nscramble_length = 18446744073709551615\r\n\ncolors=\"\\\"\\u0007\\\\\""
      (some ⟨3, "\"\x07\\", some 18446744073709551615⟩) ∧
    Loads Entry.read?
      "scramble_length = 18446744073709551615\ncolors=\"\\\"\\u0007\\\\\"\n\"colors\" = true"
      none := by
  have order : [⟨"scramble_length", .number 18446744073709551615⟩,
      ⟨"colors", .text "\"\x07\\"⟩].Perm
        (Choice.mk none (some "\"\x07\\") (some 18446744073709551615)).entries :=
    List.Perm.swap _ _ _
  obtain ⟨-, loaded, refused⟩ := loads_written conforms_read? _ order
  have noGap : Gap [] := by simp [Gap]
  have gap : Gap [' '] := by simp [Gap]
  have comment : Idle "# long".toList :=
    .comment noGap fun c hc => isPlain_iff.1 (List.all_eq_true.1 (by decide) c hc)
  have length : EntryLine ValueText ⟨"scramble_length", .number 18446744073709551615⟩
      "scramble_length = 18446744073709551615".toList :=
    ⟨_, _, _, [], ⟨[], _, [' '], noGap, .of_all_isBare (by decide) (by decide), gap, rfl⟩, gap,
      .number _, .blank noGap, by decide +kernel⟩
  have colors : EntryLine ValueText ⟨"colors", .text "\"\x07\\"⟩
      "colors=\"\\\"\\u0007\\\\\"".toList :=
    ⟨_, _, _, [], ⟨[], _, [], noGap, .of_all_isBare (by decide) (by decide), noGap, rfl⟩, noGap,
      .basic (quoted_map_escape "\"\x07\\".toList), .blank noGap, by decide +kernel⟩
  have again : EntryLine ValueText ⟨"colors", .other⟩ "\"colors\" = true".toList :=
    ⟨_, _, _, [], ⟨[], _, [' '], noGap, .basic (quoted_map_escape "colors".toList), gap, rfl⟩,
      gap, .yes, .blank noGap, by decide +kernel⟩
  have whole := loaded
    ["# long".toList, "scramble_length = 18446744073709551615".toList, [],
      "colors=\"\\\"\\u0007\\\\\"".toList]
    "# long\nscramble_length = 18446744073709551615\r\n\ncolors=\"\\\"\\u0007\\\\\""
    (.idle comment (.entry length (.idle (.blank noGap) (.entry colors .nil))))
    (.newline (.carriageReturn (.newline (.last _))))
  have nothing := refused
    ["scramble_length = 18446744073709551615".toList, "colors=\"\\\"\\u0007\\\\\"".toList] []
    ⟨"colors", .other⟩ "\"colors\" = true".toList
    "scramble_length = 18446744073709551615\ncolors=\"\\\"\\u0007\\\\\"\n\"colors\" = true"
    (.entry length (.entry colors .nil)) again (.inr (by decide))
    (.newline (.newline (.last _)))
  exact ⟨conforms_read?, whole, nothing⟩

end Settings

end Twisty
