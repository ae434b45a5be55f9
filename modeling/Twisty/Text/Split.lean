/-! Splitting off the start of a text. Both parts together are always the text. -/

namespace Twisty.Text

/-- Splits off the first character if it has a property. -/
def splitFirst (p : Char → Bool) : List Char → List Char × List Char
  | [] => ([], [])
  | c :: rest => if p c then ([c], rest) else ([], c :: rest)

theorem splitFirst_append (p : Char → Bool) (cs : List Char) :
    (splitFirst p cs).1 ++ (splitFirst p cs).2 = cs := by
  cases cs with
  | nil => rfl
  | cons c rest => simp only [splitFirst]; split <;> rfl

theorem of_mem_splitFirst {p : Char → Bool} {cs : List Char} {c : Char}
    (h : c ∈ (splitFirst p cs).1) : p c = true := by
  cases cs with
  | nil => cases h
  | cons a rest =>
    simp only [splitFirst] at h
    split at h
    · rename_i ha; rwa [List.mem_singleton.1 h]
    · cases h

theorem length_splitFirst_le (p : Char → Bool) (cs : List Char) :
    (splitFirst p cs).2.length ≤ cs.length := by
  have h := congrArg List.length (splitFirst_append p cs)
  rw [List.length_append] at h
  omega

theorem splitFirst_cons {p : Char → Bool} {c : Char} (h : p c = true) (cs : List Char) :
    splitFirst p (c :: cs) = ([c], cs) := by simp [splitFirst, h]

theorem splitFirst_of_head {p : Char → Bool} {cs : List Char}
    (h : ∀ c ∈ cs.head?, p c = false) : splitFirst p cs = ([], cs) := by
  cases cs with
  | nil => rfl
  | cons c rest => simp [splitFirst, h c rfl]

/-- Where a run of characters with a property ends, it is split off whole. -/
theorem takeWhile_of_append {p : Char → Bool} {cs rest : List Char} (run : ∀ c ∈ cs, p c = true)
    (stop : ∀ c ∈ rest.head?, p c = false) : (cs ++ rest).takeWhile p = cs := by
  rw [List.takeWhile_append_of_pos run]
  cases rest with
  | nil => simp
  | cons c rest => simp [stop c rfl]

theorem dropWhile_of_append {p : Char → Bool} {cs rest : List Char} (run : ∀ c ∈ cs, p c = true)
    (stop : ∀ c ∈ rest.head?, p c = false) : (cs ++ rest).dropWhile p = rest := by
  have whole := List.takeWhile_append_dropWhile (p := p) (l := cs ++ rest)
  rw [takeWhile_of_append run stop] at whole
  exact List.append_cancel_left whole

/-- The decimal digits that a text starts with. -/
def leadingDigits (cs : List Char) : List Char := cs.takeWhile Char.isDigit

/-- What follows them. -/
def afterDigits (cs : List Char) : List Char := cs.dropWhile Char.isDigit

theorem leadingDigits_append (cs : List Char) : leadingDigits cs ++ afterDigits cs = cs :=
  List.takeWhile_append_dropWhile

theorem isDigit_of_mem_leadingDigits {cs : List Char} {c : Char}
    (h : c ∈ leadingDigits cs) : c.isDigit = true :=
  List.all_eq_true.1 List.all_takeWhile c h

theorem leadingDigits_of_append {ds cs : List Char} (digits : ∀ c ∈ ds, c.isDigit = true)
    (stop : ∀ c ∈ cs.head?, c.isDigit = false) : leadingDigits (ds ++ cs) = ds :=
  takeWhile_of_append digits stop

theorem afterDigits_of_append {ds cs : List Char} (digits : ∀ c ∈ ds, c.isDigit = true)
    (stop : ∀ c ∈ cs.head?, c.isDigit = false) : afterDigits (ds ++ cs) = cs :=
  dropWhile_of_append digits stop

theorem length_afterDigits_le (cs : List Char) : (afterDigits cs).length ≤ cs.length := by
  have h := congrArg List.length (leadingDigits_append cs)
  rw [List.length_append] at h
  omega

end Twisty.Text
