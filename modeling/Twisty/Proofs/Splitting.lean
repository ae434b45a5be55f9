import Twisty.Proofs.FaultTexts

/-! Splitting a text into words. The words in a row are the text without its blanks. Each
stands at its place in the text, with nothing inside that separates words, and goes on as far
as it can. They are found in rounds, of which each uses up a character at least, so that after
as many rounds as there are characters nothing is left of the text. -/

namespace Twisty

open Text

namespace Token

/-! ## Whole words -/

/-- A word that is not cut off by the text behind it. A move begins with a digit or a letter,
and all its characters are of ASCII. A count takes all the digits there are. -/
def IsWhole (after : List Char) : Token → Prop
  | move word => word ≠ [] ∧ (∀ c ∈ word.head?, c.isAlphanum = true) ∧ ∀ c ∈ word, c.toNat < 128
  | opening => True
  | closing count => (∀ c ∈ count, c.isDigit = true) ∧ ∀ c ∈ after.head?, c.isDigit = false

theorem toNat_lt_of_mem_splitWord (cs : List Char) : ∀ c ∈ (splitWord cs).1, c.toNat < 128 :=
  of_mem_splitWord (fun _ h => Nat.lt_of_le_of_lt (toNat_of_isAlphanum h).2 (by decide))
    (by decide) cs

/-- Where neither a digit nor a letter is, nothing is split off. -/
theorem splitWord_of_not_isAlphanum {c : Char} (h : c.isAlphanum = false) (rest : List Char) :
    splitWord (c :: rest) = ([], c :: rest) := by
  obtain ⟨notLetter, notDigit⟩ := Bool.or_eq_false_iff.1 h
  simp [splitWord, leadingDigits, afterDigits, notLetter, notDigit]

theorem head?_splitWord (c : Char) (rest : List Char) :
    ∀ d ∈ (splitWord (c :: rest)).1.head?, d.isAlphanum = true := by
  intro d hd
  by_cases alphanumeric : c.isAlphanum = true
  · have whole := splitWord_append (c :: rest)
    obtain ⟨word, spelled⟩ := List.head?_eq_some_iff.1 hd
    rw [spelled] at whole
    obtain ⟨rfl, -⟩ := List.cons.inj whole
    exact alphanumeric
  · rw [splitWord_of_not_isAlphanum (by simpa using alphanumeric)] at hd
    cases hd

theorem head?_afterDigits (cs : List Char) : ∀ c ∈ (afterDigits cs).head?, c.isDigit = false := by
  intro c hc
  have stop := List.head?_dropWhile_not Char.isDigit cs
  rw [afterDigits] at hc
  rwa [hc] at stop

theorem isWhole_of_next {c : Char} {rest after : List Char} {token : Token}
    (h : next c rest = .ok (some token, after)) : token.IsWhole after := by
  unfold next at h
  split at h
  · cases h
  split at h
  · cases h
    trivial
  split at h
  · split at h
    · rename_i behind
      have digits := splitFirst_append (fun x => x == '\'' || x == 'w') (afterDigits rest)
      have stop := head?_afterDigits rest
      rw [behind] at digits
      rw [← digits] at stop
      cases h
      exact ⟨fun _ => isDigit_of_mem_leadingDigits, stop⟩
    · cases h
  · split at h
    · cases h
    · rename_i notEmpty split
      have head := head?_splitWord c rest
      have ascii := toNat_lt_of_mem_splitWord (c :: rest)
      rw [split] at head ascii
      cases h
      exact ⟨notEmpty, head, ascii⟩

theorem IsPlain.not_isBlank {token : Token} (plain : token.IsPlain) :
    ∀ c ∈ token.chars, isBlank c = false := by
  cases token with
  | move word => exact fun c hc => (isBreak_eq_false_iff.1 (plain c hc)).1
  | opening => exact List.forall_mem_singleton.2 rfl
  | closing count =>
    exact List.forall_mem_cons.2 ⟨rfl, fun c hc => (isBreak_eq_false_iff.1 (plain c hc)).1⟩

/-! ## All words -/

/-- What is passed over are the blanks. -/
theorem flatMap_chars_of_spread {tokens : List Token} {cs : List Char} (h : Spread tokens cs)
    (plain : ∀ token ∈ tokens, token.IsPlain) :
    tokens.flatMap chars = cs.filter fun c => !isBlank c := by
  induction h with
  | nil => rfl
  | blank blank _ ih =>
    rw [List.filter_cons_of_neg (by simp [blank])]
    exact ih plain
  | word token _ ih =>
    obtain ⟨here, later⟩ := List.forall_mem_cons.1 plain
    have solid : token.chars.filter (fun c => !isBlank c) = token.chars :=
      List.filter_eq_self.2 fun c hc => by simp [here.not_isBlank c hc]
    rw [List.flatMap_cons, List.filter_append, solid, ih later]

/-- Each word has its place, between the text with the words before it and the text with those
behind it. -/
theorem exists_place_of_scan {cs : List Char} {tokens : List Token} (h : scan cs = .ok tokens) :
    ∀ before token after, tokens = before ++ token :: after →
      ∃ front back, cs = front ++ (token.chars ++ back) ∧
        Spread before front ∧ Spread after back ∧ token.IsWhole back := by
  refine of_scan (P := fun cs tokens => ∀ before token after, tokens = before ++ token :: after →
      ∃ front back, cs = front ++ (token.chars ++ back) ∧
        Spread before front ∧ Spread after back ∧ token.IsWhole back)
    (fun before token after none => absurd none (by simp))
    (fun {c rest behind found tokens} here later ih before token after split => ?_) h
  rcases next_cases here with ⟨rfl, blank, rfl⟩ | ⟨word, rfl, -, whole⟩
  · obtain ⟨front, back, rfl, spread, rest⟩ := ih before token after split
    exact ⟨c :: front, back, rfl, .blank blank spread, rest⟩
  · cases before with
    | nil =>
      obtain ⟨rfl, rfl⟩ := List.cons.inj split
      exact ⟨[], behind, whole.symm, .nil, spread_of_scan later, isWhole_of_next here⟩
    | cons first before =>
      obtain ⟨rfl, others⟩ := List.cons.inj split
      obtain ⟨front, back, rfl, spread, rest⟩ := ih before token after others
      exact ⟨word.chars ++ front, back, by rw [← whole, List.append_assoc], .word word spread, rest⟩

/-- What some words have to do with a text that they are all the words of. -/
structure Lossless (cs : List Char) (tokens : List Token) : Prop where
  text : tokens.flatMap chars = cs.filter fun c => !isBlank c
  solid : ∀ token ∈ tokens, ∀ c ∈ token.chars, isBlank c = false
  place : ∀ before token after, tokens = before ++ token :: after →
    ∃ front back, cs = front ++ (token.chars ++ back) ∧
      Spread before front ∧ Spread after back ∧ token.IsWhole back

/-! ## One round after another -/

/-- The words found so far, and the text that is left. -/
structure Search where
  found : List Token
  rest : List Char
deriving DecidableEq

namespace Search

/-- Takes the next word or passes over a blank, unless nothing is left. -/
def round (s : Search) : Except Flaw Search :=
  match s.rest with
  | [] => .ok s
  | c :: rest => (next c rest).map fun r => ⟨s.found ++ r.1.toList, r.2⟩

def rounds : Nat → Search → Except Flaw Search
  | 0, s => .ok s
  | k + 1, s =>
    match s.round with
    | .error flaw => .error flaw
    | .ok t => rounds k t

variable {s t : Search}

theorem exists_next_of_round {c : Char} {rest : List Char} (left : s.rest = c :: rest)
    (h : s.round = .ok t) :
    ∃ token, next c rest = .ok (token, t.rest) ∧ t.found = s.found ++ token.toList := by
  rw [round, left] at h
  dsimp only at h
  cases step : next c rest with
  | error flaw => rw [step] at h; cases h
  | ok r =>
    rw [step] at h
    cases h
    exact ⟨r.1, rfl, rfl⟩

/-- The first characters of what is left are used up, one of them or more. -/
theorem exists_taken_of_round (left : s.rest ≠ []) (h : s.round = .ok t) :
    ∃ taken, taken ≠ [] ∧ s.rest = taken ++ t.rest := by
  obtain ⟨c, rest, behind⟩ := List.exists_cons_of_ne_nil left
  obtain ⟨token, step, -⟩ := exists_next_of_round behind h
  obtain ⟨taken, whole⟩ := suffix_of_next step
  refine ⟨taken, ?_, by rw [behind, whole]⟩
  rintro rfl
  have shorter := length_le_of_next step
  rw [List.nil_append] at whole
  rw [whole, List.length_cons] at shorter
  omega

/-- By induction on the rounds: one that does not fail leaves less text than rounds. -/
theorem rounds_eq_scan {k : Nat} (enough : s.rest.length ≤ k) :
    rounds k s = (scan s.rest).map fun tokens => ⟨s.found ++ tokens, []⟩ := by
  induction k generalizing s with
  | zero =>
    obtain ⟨found, rest⟩ := s
    cases List.length_eq_zero_iff.1 (Nat.le_zero.1 enough)
    simp [rounds, scan_nil, Except.map]
  | succ k ih =>
    obtain ⟨found, rest⟩ := s
    rw [rounds]
    cases rest with
    | nil => exact ih (Nat.zero_le k)
    | cons c rest =>
      cases step : next c rest with
      | error flaw => simp [round, step, scan_of_next_error step, Except.map]
      | ok r =>
        obtain ⟨token, after⟩ := r
        have shorter : after.length ≤ k :=
          Nat.le_trans (length_le_of_next step) (Nat.le_of_succ_le_succ enough)
        rw [scan_of_next step]
        simp only [round, step, Except.map]
        rw [ih shorter]
        cases scan after <;> simp [Except.map]

end Search

/-- Nothing but blanks is lost, and each word stands whole at its place. Each round takes
characters away, so with a round for each character all words are found, or what is wrong. -/
theorem scan_lossless (cs : List Char) :
    (∀ tokens, scan cs = .ok tokens → Lossless cs tokens) ∧
    (∀ s t : Search, s.rest ≠ [] → s.round = .ok t →
      ∃ taken, taken ≠ [] ∧ s.rest = taken ++ t.rest) ∧
    Search.rounds cs.length ⟨[], cs⟩ = (scan cs).map fun tokens => ⟨tokens, []⟩ := by
  refine ⟨fun tokens h => ⟨?_, ?_, exists_place_of_scan h⟩, fun s t => Search.exists_taken_of_round,
    Search.rounds_eq_scan (Nat.le_refl _)⟩
  · exact flatMap_chars_of_spread (spread_of_scan h) (isPlain_of_scan h)
  · exact fun token ht => (isPlain_of_scan h token ht).not_isBlank

/-- The blank before the last word is none of ASCII. -/
theorem scan_lossless_nested :
    (scan "(R2U'3Rw)12\u3000F".toList =
        .ok [.opening, .move ['R', '2'], .move ['U', '\''], .move ['3', 'R', 'w'],
          .closing ['1', '2'], .move ['F']] ∧
      Lossless "(R2U'3Rw)12\u3000F".toList
        [.opening, .move ['R', '2'], .move ['U', '\''], .move ['3', 'R', 'w'],
          .closing ['1', '2'], .move ['F']]) ∧
    Search.round ⟨[.opening], ['R', '2', 'U']⟩ = .ok ⟨[.opening, .move ['R', '2']], ['U']⟩ ∧
      ∃ taken, taken ≠ [] ∧ ['R', '2', 'U'] = taken ++ ['U'] := by
  obtain ⟨lossless, shrinks, -⟩ := scan_lossless "(R2U'3Rw)12\u3000F".toList
  have found : scan "(R2U'3Rw)12\u3000F".toList =
      .ok [.opening, .move ['R', '2'], .move ['U', '\''], .move ['3', 'R', 'w'],
        .closing ['1', '2'], .move ['F']] := by
    decide +kernel
  have round : Search.round ⟨[.opening], ['R', '2', 'U']⟩ =
      .ok ⟨[.opening, .move ['R', '2']], ['U']⟩ := by
    decide +kernel
  exact ⟨⟨found, lossless _ found⟩, round, shrinks _ _ (List.cons_ne_nil _ _) round⟩

end Token

end Twisty
