import Twisty.Proofs.Parentheses

/-! What faults name. A text that is no algorithm is at fault for a part of it that can be
pointed at: a word in it that is no move, or what stands behind a parenthesis there and is no
count. If it is the groups that are at fault, the whole text is named besides. -/

namespace Twisty

open Text

/-- What cannot stand behind a group: digits that no group can be repeated by, or what would
turn a move, with or without digits before it. -/
inductive BadCount : List Char → Prop
  | outOfRange {digits : List Char} : digits ≠ [] → (∀ c ∈ digits, c.isDigit = true) →
      (Count.value digits = 0 ∨ 2 ^ 64 - 1 < Count.value digits) → BadCount digits
  | turning {digits : List Char} {suffix : Char} : (∀ c ∈ digits, c.isDigit = true) →
      (suffix = '\'' ∨ suffix = 'w') → BadCount (digits ++ [suffix])

/-- What is named is in the text, and is at fault by itself. -/
def Flaw.PointsInto (cs : List Char) : Flaw → Prop
  | .move word => word ≠ [] ∧ word <:+: cs ∧ Move.ofChars? word = none
  | .grouping (.badCount count) => ')' :: count.toList <:+: cs ∧ BadCount count.toList
  | .grouping _ => True

/-! ## Words that are found -/

namespace Token

/-- A word of a move is not empty, and a count has nothing but digits. -/
def WellRead : Token → Prop
  | move word => word ≠ []
  | opening => True
  | closing count => ∀ c ∈ count, c.isDigit = true

theorem wellRead_of_next {c : Char} {rest after : List Char} {token : Token}
    (h : next c rest = .ok (some token, after)) : token.WellRead := by
  unfold next at h
  split at h
  · cases h
  split at h
  · cases h
    trivial
  split at h
  · split at h
    · cases h
      exact fun _ => isDigit_of_mem_leadingDigits
    · cases h
  · split at h
    · cases h
    · rename_i notEmpty _
      cases h
      exact notEmpty

/-- Each word is found somewhere in the text. -/
theorem infix_of_scan {cs : List Char} {tokens : List Token} (h : scan cs = .ok tokens) :
    ∀ token ∈ tokens, token.WellRead ∧ token.chars <:+: cs := by
  refine of_scan (P := fun cs tokens => ∀ token ∈ tokens, token.WellRead ∧ token.chars <:+: cs)
    (List.forall_mem_nil _) (fun {c rest after token tokens} found _ later => ?_) h
  have behind : ∀ token ∈ tokens, token.WellRead ∧ token.chars <:+: c :: rest := by
    intro token ht
    obtain ⟨wellRead, inside⟩ := later token ht
    exact ⟨wellRead, inside.trans (suffix_of_next found).isInfix⟩
  rcases next_cases found with ⟨rfl, -, -⟩ | ⟨word, rfl, -, whole⟩
  · exact behind
  · refine List.forall_mem_cons.2 ⟨⟨wellRead_of_next found, ?_⟩, behind⟩
    rw [← whole]
    exact (List.prefix_append word.chars after).isInfix

end Token

/-! ## What is refused -/

theorem Move.ofChars?_of_not_isAlphanum {c : Char} (h : c.isAlphanum = false) :
    ofChars? [c] = none := by
  rw [Option.eq_none_iff_forall_ne_some]
  intro m reads
  obtain ⟨digits, marked, alldigits, -, spelled⟩ := ofChars?_eq_some_iff.1 reads
  rw [Char.isAlphanum, Bool.or_eq_false_iff] at h
  cases digits with
  | nil =>
    obtain ⟨rfl, -⟩ := List.cons.inj spelled
    cases m.letter.isAlpha_char.symm.trans h.1
  | cons d digits =>
    obtain ⟨rfl, -⟩ := List.cons.inj spelled
    cases (alldigits c List.mem_cons_self).symm.trans h.2

namespace Pending

theorem badCount_of_readCount {digits : List Char} {fault : GroupingFault}
    (isDigit : ∀ c ∈ digits, c.isDigit = true) (refused : readCount digits = .error fault) :
    BadCount digits := by
  have uncounted : ∀ count, RepeatCount.chars count ≠ digits := by
    rintro count rfl
    rw [RepeatCount.readCount_chars] at refused
    cases refused
  have written : digits ≠ [] := fun missing => uncounted none missing.symm
  refine .outOfRange written isDigit ?_
  by_contra fits
  rw [not_or, Nat.not_lt] at fits
  exact uncounted
    (some ⟨digits, written, isDigit, Nat.one_le_iff_ne_zero.2 fits.1, fits.2⟩) rfl

theorem pointsInto_of_take {p : Pending} {token : Token} {flaw : Flaw} {cs : List Char}
    (wellRead : token.WellRead) (inside : token.chars <:+: cs)
    (refused : p.take token = .error flaw) : flaw.PointsInto cs := by
  cases token with
  | move word =>
    obtain ⟨unread, rfl⟩ := take_move_eq_error_iff.1 refused
    exact ⟨wellRead, inside, unread⟩
  | opening => cases refused
  | closing count =>
    obtain ⟨fault, closed, rfl⟩ := take_closing_eq_error_iff.1 refused
    rcases closeGroup_error_cases closed with counted | rfl | ⟨rfl, -⟩
    · rw [eq_badCount_of_readCount counted, Flaw.PointsInto, String.toList_ofList]
      exact ⟨inside, badCount_of_readCount wellRead counted⟩
    · trivial
    · trivial

end Pending

theorem Token.pointsInto_of_scan {cs : List Char} {flaw : Flaw} (h : scan cs = .error flaw) :
    flaw.PointsInto cs := by
  obtain ⟨c, rest, later, fails⟩ := exists_next_of_scan h
  rcases next_error_cases fails with ⟨other, rfl⟩ | ⟨suffix, after, rfl, turns, spelled, rfl⟩
  · have here : [c] <+: c :: rest := List.prefix_append [c] rest
    exact ⟨List.cons_ne_nil _ _, here.isInfix.trans later.isInfix,
      Move.ofChars?_of_not_isAlphanum other⟩
  · have here : ')' :: (leadingDigits rest ++ [suffix]) <+: ')' :: rest := by
      refine List.cons_prefix_cons.2 ⟨rfl, after, ?_⟩
      rw [List.append_assoc, List.singleton_append, ← spelled]
    rw [Flaw.PointsInto, String.toList_ofList]
    exact ⟨here.isInfix.trans later.isInfix,
      .turning (fun _ => isDigit_of_mem_leadingDigits) turns⟩

namespace Algorithm

/-- All words are found before any is read, and the groups are looked at last. -/
theorem pointsInto_of_ofChars {cs : List Char} {flaw : Flaw} (h : ofChars cs = .error flaw) :
    flaw.PointsInto cs := by
  rcases ofChars_cases cs with ⟨other, unscanned, fails⟩ |
    ⟨tokens, scanned, ⟨other, refused, fails⟩ | ⟨pending, -, ends⟩⟩
  · cases h.symm.trans fails
    exact Token.pointsInto_of_scan unscanned
  · cases h.symm.trans fails
    obtain ⟨q, token, found, here⟩ := Pending.exists_take_of_takeAll refused
    obtain ⟨wellRead, inside⟩ := Token.infix_of_scan scanned token found
    exact Pending.pointsInto_of_take wellRead inside here
  · obtain ⟨-, rfl⟩ := Pending.finish_eq_error_iff.1 (ends.symm.trans h)
    trivial

theorem parse_eq_move_iff {text word : String} :
    parse text = .error (.move word) ↔ ofChars text.toList = .error (.move word.toList) := by
  rw [parse]
  cases ofChars text.toList with
  | ok a => simp [Except.mapError]
  | error flaw =>
    cases flaw with
    | move chars =>
      simp only [Except.mapError, Flaw.within, Except.error.injEq, ParseError.move.injEq,
        Flaw.move.injEq]
      refine ⟨fun same => ?_, fun same => ?_⟩
      · rw [← same, String.toList_ofList]
      · rw [same, String.ofList_toList]
    | grouping fault => simp [Except.mapError, Flaw.within]

/-- A word that is named as no move is in the text and is none when it is read alone. What is
named as a bad count is there behind a parenthesis, and is no count. Any fault of the groups
is reported with the whole text. -/
theorem parse_error_points (text : String) :
    (∀ word, parse text = .error (.move word) →
      word ≠ "" ∧ word.toList <:+: text.toList ∧ Move.parse word = .error (.move word)) ∧
    (∀ whole count, parse text = .error (.grouping whole (.badCount count)) →
      ')' :: count.toList <:+: text.toList ∧ BadCount count.toList) ∧
    ∀ whole fault, parse text = .error (.grouping whole fault) → whole = text := by
  refine ⟨fun word h => ?_, fun whole count h => ?_, fun whole fault h => ?_⟩
  · obtain ⟨some, inside, unread⟩ := pointsInto_of_ofChars (parse_eq_move_iff.1 h)
    refine ⟨?_, inside, Move.parse_eq_error_iff.2 unread⟩
    rintro rfl
    exact some rfl
  · exact pointsInto_of_ofChars (parse_eq_grouping_iff.1 h).1
  · exact (parse_eq_grouping_iff.1 h).2

/-- A three that no mark follows is no move, though the move before it could have been so wide,
and a group cannot be turned back by a suffix. -/
theorem parse_error_points_suffixed :
    (parse "Rw3" = .error (.move "3") ∧ "3".toList <:+: "Rw3".toList ∧
      Move.parse "3" = .error (.move "3")) ∧
    parse "(R U)2'" = .error (.grouping "(R U)2'" (.badCount "2'")) ∧
      ')' :: "2'".toList <:+: "(R U)2'".toList ∧ BadCount "2'".toList := by
  have word : parse "Rw3" = .error (.move "3") := by decide +kernel
  have count : parse "(R U)2'" = .error (.grouping "(R U)2'" (.badCount "2'")) := by
    decide +kernel
  obtain ⟨moves, -, -⟩ := parse_error_points "Rw3"
  obtain ⟨-, counts, -⟩ := parse_error_points "(R U)2'"
  exact ⟨⟨word, (moves _ word).2⟩, count, counts _ _ count⟩

end Algorithm

end Twisty
