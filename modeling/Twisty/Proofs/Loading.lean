import Twisty.Settings.Basic
import Mathlib.Data.List.Nodup

/-! Loading settings. A file is accepted, whatever its format, if each of its entries sets
something and none sets it again. What is loaded can then be looked up in the entries, in
whatever order they are, and what has no entry is as usual. -/

namespace Twisty.Settings

open Text

variable {key : String} {entry : Entry} {entries : List Entry}

/-! ## Looking up -/

def Value.number? : Value → Option Nat
  | number n => some n
  | text _ | other => none

def Value.text? : Value → Option String
  | text content => some content
  | number _ | other => none

/-- What some entries say of a key. -/
def valueAt? (key : String) (entries : List Entry) : Option Value :=
  (entries.find? fun entry => entry.key == key).map Entry.value

def sizeIn? (entries : List Entry) : Option Nat := (valueAt? "size" entries).bind Value.number?

def colorsIn? (entries : List Entry) : Option String :=
  (valueAt? "colors" entries).bind Value.text?

def lengthIn? (entries : List Entry) : Option Nat :=
  (valueAt? "scramble_length" entries).bind Value.number?

theorem valueAt?_cons (key : String) (entry : Entry) (entries : List Entry) :
    valueAt? key (entry :: entries) =
      if entry.key = key then some entry.value else valueAt? key entries := by
  by_cases same : entry.key = key <;> simp [valueAt?, same]

theorem valueAt?_eq_none (missing : key ∉ entries.map Entry.key) : valueAt? key entries = none := by
  rw [valueAt?, Option.map_eq_none_iff, List.find?_eq_none]
  intro entry h same
  rw [beq_iff_eq] at same
  exact missing (List.mem_map.2 ⟨entry, h, same⟩)

/-- If no key is there twice, an entry is found by its key wherever it stands. -/
theorem valueAt?_eq_some_iff (distinct : (entries.map Entry.key).Nodup) {value : Value} :
    valueAt? key entries = some value ↔ ⟨key, value⟩ ∈ entries := by
  induction entries with
  | nil => simp [valueAt?]
  | cons entry rest ih =>
    rw [List.map_cons, List.nodup_cons] at distinct
    obtain ⟨other, later⟩ := distinct
    rw [valueAt?_cons, List.mem_cons]
    split
    · rename_i same
      subst same
      have missing : ⟨entry.key, value⟩ ∉ rest := fun h =>
        other (List.mem_map.2 ⟨_, h, rfl⟩)
      rw [Option.some.injEq, or_iff_left missing]
      constructor
      · rintro rfl
        rfl
      · intro same
        rw [← same]
    · rename_i different
      have notFirst : (⟨key, value⟩ : Entry) ≠ entry := by
        rintro rfl
        exact different rfl
      rw [ih later, or_iff_right notFirst]

theorem valueAt?_perm {others : List Entry} (order : entries.Perm others)
    (distinct : (entries.map Entry.key).Nodup) (key : String) :
    valueAt? key entries = valueAt? key others := by
  refine Option.ext fun value => ?_
  rw [valueAt?_eq_some_iff distinct, valueAt?_eq_some_iff ((order.map _).nodup_iff.1 distinct),
    order.mem_iff]

/-! ## One entry after another -/

/-- An entry that sets something. -/
inductive Sets : Entry → Prop
  | size {n : Nat} : n ≤ Count.limit → Sets ⟨"size", .number n⟩
  | colors (content : String) : Sets ⟨"colors", .text content⟩
  | scrambleLength {n : Nat} : n ≤ Count.limit → Sets ⟨"scramble_length", .number n⟩

theorem sets_of_set? {s t : Settings} (h : s.set? entry = some t) : Sets entry := by
  obtain ⟨key, value⟩ := entry
  unfold set? at h
  split at h
  · rename_i n hkey hvalue
    cases hkey
    cases hvalue
    split at h
    · exact .size ‹_›
    · cases h
  · rename_i content hkey hvalue
    cases hkey
    cases hvalue
    exact .colors content
  · rename_i n hkey hvalue
    cases hkey
    cases hvalue
    split at h
    · exact .scrambleLength ‹_›
    · cases h
  · cases h

/-- Settings with all that some entries say of them. -/
def updated (s : Settings) (entries : List Entry) : Settings :=
  ⟨(sizeIn? entries).getD s.size, (colorsIn? entries).getD s.colors,
    (lengthIn? entries).or s.scrambleLength⟩

theorem updated_nil (s : Settings) : s.updated [] = s := rfl

theorem updated_perm {others : List Entry} (order : entries.Perm others)
    (distinct : (entries.map Entry.key).Nodup) (s : Settings) :
    s.updated entries = s.updated others := by
  simp only [updated, sizeIn?, colorsIn?, lengthIn?, valueAt?_perm order distinct]

/-- What an entry sets is not set again by the others. -/
theorem exists_set?_updated (s : Settings) (sets : Sets entry)
    (other : entry.key ∉ entries.map Entry.key) :
    ∃ t, s.set? entry = some t ∧ t.updated entries = s.updated (entry :: entries) := by
  have missing := valueAt?_eq_none other
  cases sets with
  | @size n le =>
    refine ⟨{ s with size := n }, if_pos le, ?_⟩
    simp [updated, sizeIn?, colorsIn?, lengthIn?, valueAt?_cons, missing, Value.number?]
  | colors content =>
    refine ⟨{ s with colors := content }, rfl, ?_⟩
    simp [updated, sizeIn?, colorsIn?, lengthIn?, valueAt?_cons, missing, Value.text?]
  | @scrambleLength n le =>
    refine ⟨{ s with scrambleLength := some n }, if_pos le, ?_⟩
    simp [updated, sizeIn?, colorsIn?, lengthIn?, valueAt?_cons, missing, Value.number?]

/-- By induction on the entries. -/
theorem setAll?_eq_some_iff {s t : Settings} (distinct : (entries.map Entry.key).Nodup) :
    s.setAll? entries = some t ↔ (∀ entry ∈ entries, Sets entry) ∧ t = s.updated entries := by
  induction entries generalizing s with
  | nil => simp [setAll?, updated_nil, eq_comm]
  | cons entry rest ih =>
    rw [List.map_cons, List.nodup_cons] at distinct
    obtain ⟨other, later⟩ := distinct
    rw [setAll?, List.forall_mem_cons]
    cases found : s.set? entry with
    | none =>
      refine ⟨fun h => absurd h (by simp), ?_⟩
      -- An entry that sets something would not have been refused.
      rintro ⟨⟨sets, -⟩, -⟩
      obtain ⟨next, one, -⟩ := exists_set?_updated s sets other
      rw [found] at one
      cases one
    | some next =>
      have sets := sets_of_set? found
      obtain ⟨_, one, all⟩ := exists_set?_updated s sets other
      cases found.symm.trans one
      rw [← all]
      exact (ih later).trans ⟨fun ⟨rest, whole⟩ => ⟨⟨sets, rest⟩, whole⟩,
        fun ⟨⟨_, rest⟩, whole⟩ => ⟨rest, whole⟩⟩

/-! ## Whole files -/

variable {format : Format}

/-- The entries that settings are loaded from: those of the file that was named, or of the
usual file. If that one is missing there are none. -/
def Format.entries? (format : Format) (named : Option File) (usualFile : File) :
    Option (List Entry) :=
  match named, usualFile with
  | some (.text content), _ => format content
  | some _, _ => none
  | none, .text content => format content
  | none, .unreadable => none
  | none, .missing => some []

/-- Entries of which settings can be made. -/
structure LoadedFrom (format : Format) (named : Option File) (usualFile : File)
    (entries : List Entry) : Prop where
  found : format.entries? named usualFile = some entries
  distinct : (entries.map Entry.key).Nodup
  sets : ∀ entry ∈ entries, Sets entry

theorem parse?_eq_some_iff {text : String} {settings : Settings} :
    format.parse? text = some settings ↔
      ∃ entries, format text = some entries ∧ (entries.map Entry.key).Nodup ∧
        (∀ entry ∈ entries, Sets entry) ∧ settings = usual.updated entries := by
  rw [Format.parse?, Option.bind_eq_some_iff]
  refine exists_congr fun entries => and_congr_right fun _ => ?_
  rw [ofEntries?]
  split
  · rename_i distinct
    simp only [setAll?_eq_some_iff distinct, distinct, true_and]
  · rename_i repeated
    simp only [repeated, false_and, reduceCtorEq]

theorem load?_eq_some_iff {named : Option File} {usualFile : File} {settings : Settings} :
    format.load? named usualFile = some settings ↔
      ∃ entries, LoadedFrom format named usualFile entries ∧ settings = usual.updated entries := by
  have loaded : ∀ entries, LoadedFrom format named usualFile entries ↔
      format.entries? named usualFile = some entries ∧ (entries.map Entry.key).Nodup ∧
        ∀ entry ∈ entries, Sets entry :=
    fun _ => ⟨fun ⟨found, distinct, sets⟩ => ⟨found, distinct, sets⟩,
      fun ⟨found, distinct, sets⟩ => ⟨found, distinct, sets⟩⟩
  simp only [loaded, and_assoc]
  unfold Format.load? Format.entries?
  split
  · exact parse?_eq_some_iff
  · simp
  · exact parse?_eq_some_iff
  · simp
  · simp [updated_nil, eq_comm]

end Twisty.Settings
