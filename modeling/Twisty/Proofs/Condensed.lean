import Twisty.Proofs.Canonical
import Mathlib.Data.List.Chain

/-! Algorithms without blanks. Printed moves that are put next to each other are told apart
again, but for one case: a two in front of a width is taken for the suffix of a move before
it that has none. Then that move is read as half a turn, if the rest can be read at all. -/

namespace Twisty

open Text

/-- Neither the mark nor a suffix. -/
theorem Letter.continues_nothing (letter : Letter) :
    Token.isMark letter.char = false ∧ Token.isTurnSuffix letter.char = false := by
  have each : ∀ letter ∈ all,
      Token.isMark letter.char = false ∧ Token.isTurnSuffix letter.char = false := by decide
  exact each letter letter.mem_all

namespace Move

variable {m k : Move}

/-- A clockwise move before a width that begins with a two. -/
structure RunsInto (m k : Move) : Prop where
  clockwise : m.amount = .clockwise
  twenty_le : 20 ≤ k.width
  two : (Count.digits k.width).head? = some '2'

/-! ## Two moves -/

/-- A width is written from three layers on, and from there to twenty none begins with a
two. -/
theorem twenty_le_of_head?_digits {width : Nat} (written : 2 < width)
    (two : (Count.digits width).head? = some '2') : 20 ≤ width := by
  have fewer : ∀ width < 20, 2 < width → (Count.digits width).head? ≠ some '2' := by decide
  by_contra lt
  exact fewer width (Nat.lt_of_not_le lt) written two

theorem chars_of_wide (written : 2 < k.width) : ∃ rest, k.chars = Count.digits k.width ++ rest :=
  ⟨_, by rw [chars, if_pos written, List.append_assoc]⟩

theorem chars_of_narrow (unwritten : ¬ 2 < k.width) : ∃ rest, k.chars = k.letter.char :: rest :=
  ⟨_, by rw [chars, if_neg unwritten, List.nil_append, List.cons_append]⟩

theorem endsBefore_chars (apart : ¬ m.RunsInto k) (more : List Char) :
    m.EndsBefore (k.chars ++ more) := by
  intro clockwise c hc
  by_cases written : 2 < k.width
  · obtain ⟨rest, spelled⟩ := chars_of_wide written
    have first : (Count.digits k.width).head? = some c := by
      rw [spelled, List.append_assoc, List.head?_append_of_ne_nil _ (Count.digits_ne_nil _)] at hc
      exact hc
    have digit : c.isDigit = true :=
      Count.isDigit_of_mem_digits (List.mem_of_mem_head? first)
    have notTwo : c ≠ '2' := by
      rintro rfl
      exact apart ⟨clockwise, twenty_le_of_head?_digits written first, first⟩
    have notMark : c ≠ 'w' := by rintro rfl; cases digit
    have notApostrophe : c ≠ '\'' := by rintro rfl; cases digit
    simp [Token.isMark, Token.isTurnSuffix, notTwo, notMark, notApostrophe]
  · obtain ⟨rest, spelled⟩ := chars_of_narrow written
    rw [spelled] at hc
    cases hc
    exact k.letter.continues_nothing

theorem chars_withAmount_half (clockwise : m.amount = .clockwise) :
    (m.withAmount .half).chars = m.chars ++ ['2'] := by
  have nothing : m.amount.suffix = [] := by rw [clockwise]; rfl
  simp only [chars, nothing, List.append_nil]
  rfl

/-- How far the second move turns does not matter. -/
theorem RunsInto.of_withAmount {amount : Amount} (h : m.RunsInto (k.withAmount amount)) :
    m.RunsInto k :=
  ⟨h.clockwise, h.twenty_le, h.two⟩

/-- The two is not part of the width any more. -/
theorem RunsInto.exists_chars (h : m.RunsInto k) (more : List Char) :
    ∃ rest, m.chars ++ (k.chars ++ more) = (m.withAmount .half).chars ++ rest := by
  obtain ⟨rest, spelled⟩ := chars_of_wide (Nat.lt_of_lt_of_le (by decide) h.twenty_le)
  obtain ⟨digits, hdigits⟩ := List.head?_eq_some_iff.1 h.two
  refine ⟨digits ++ rest ++ more, ?_⟩
  rw [chars_withAmount_half h.clockwise, spelled, hdigits]
  simp

end Move

namespace Algorithm

variable {a b before : Algorithm} {m : Move}

/-! ## Moves in a row -/

/-- What is printed of an algorithm, but for the blanks. -/
def condensed (a : Algorithm) : String := String.ofList (a.text.toList.filter (· ≠ ' '))

theorem filter_chars_move (m : Move) : m.chars.filter (· ≠ ' ') = m.chars := by
  rw [List.filter_eq_self]
  intro c hc
  have notBlank : c ≠ ' ' := by
    rintro rfl
    rcases Move.isAlphanum_of_mem_chars hc with alphanumeric | apostrophe
    · exact absurd alphanumeric (by decide)
    · exact absurd apostrophe (by decide)
  simpa using notBlank

theorem toList_condensed (a : Algorithm) : a.condensed.toList = a.flatMap Move.chars := by
  rw [condensed, String.toList_ofList, text, String.toList_ofList]
  induction a with
  | nil => rfl
  | cons m rest ih =>
    cases rest with
    | nil => rw [chars_singleton, filter_chars_move, List.flatMap_singleton]
    | cons k rest =>
      rw [chars_cons_cons, List.filter_append, filter_chars_move, List.flatMap_cons, ← ih]
      rfl

/-- No move runs into the next one. -/
def Legible (a : Algorithm) : Prop := a.IsChain fun m k => ¬ m.RunsInto k

theorem legible_iff :
    a.Legible ↔ ¬ ∃ before m k after, a = before ++ m :: k :: after ∧ m.RunsInto k := by
  rw [Legible, List.isChain_iff_forall_rel_of_append_cons_cons]
  constructor
  · rintro apart ⟨before, m, k, after, whole, runs⟩
    exact apart whole runs
  · intro apart m k before after whole runs
    exact apart ⟨before, m, k, after, whole, runs⟩

/-- The moves up to the first that runs into the next one. -/
structure BlursAt (a before : Algorithm) (m : Move) : Prop where
  split : ∃ k after, a = before ++ m :: k :: after ∧ m.RunsInto k
  legible : (before ++ [m]).Legible

theorem exists_blursAt (h : ¬ a.Legible) : ∃ before m, a.BlursAt before m := by
  induction a with
  | nil => exact absurd List.isChain_nil h
  | cons m rest ih =>
    cases rest with
    | nil => exact absurd (List.isChain_singleton m) h
    | cons k rest =>
      -- If not here, then it happens later, and the place there is the first of all.
      by_cases runs : m.RunsInto k
      · exact ⟨[], m, ⟨k, rest, rfl, runs⟩, List.isChain_singleton m⟩
      have later : ¬ Legible (k :: rest) :=
        fun legible => h (List.isChain_cons_cons.2 ⟨runs, legible⟩)
      obtain ⟨before, other, ⟨next, after, whole, meets⟩, legible⟩ := ih later
      refine ⟨m :: before, other, ⟨next, after, by rw [whole, List.cons_append], meets⟩, ?_⟩
      cases before with
      | nil =>
        cases whole
        exact List.isChain_cons_cons.2 ⟨runs, legible⟩
      | cons first before =>
        cases whole
        exact List.isChain_cons_cons.2 ⟨runs, legible⟩

/-- By induction on the moves: each ends before the next one, and the last before what
follows. -/
theorem scan_flatMap_chars (legible : a.Legible) {tail : List Char}
    (last : ∀ m ∈ a.getLast?, m.EndsBefore tail) :
    Token.scan (a.flatMap Move.chars ++ tail) = (Token.scan tail).map (a.words ++ ·) := by
  induction a with
  | nil =>
    rw [List.flatMap_nil, List.nil_append]
    cases Token.scan tail <;> rfl
  | cons m rest ih =>
    have ends : m.EndsBefore (rest.flatMap Move.chars ++ tail) := by
      cases rest with
      | nil => exact last m rfl
      | cons k rest =>
        rw [List.flatMap_cons, List.append_assoc]
        exact Move.endsBefore_chars (List.isChain_cons_cons.1 legible).1 _
    have later : ∀ k ∈ rest.getLast?, k.EndsBefore tail := by
      intro k hk
      cases rest with
      | nil => cases hk
      | cons first rest => exact last k (by rwa [List.getLast?_cons_cons])
    rw [List.flatMap_cons, List.append_assoc, Token.scan_word_of_endsBefore m.ofChars?_chars ends,
      ih legible.tail later]
    cases Token.scan tail <;> rfl

/-! ## What is read of them -/

theorem parse_condensed_of_legible (legible : a.Legible) : parse a.condensed = .ok a := by
  have last : ∀ m ∈ a.getLast?, m.EndsBefore [] :=
    fun m _ => m.endsBefore_of_ends ends_nil
  have scanned := scan_flatMap_chars legible last
  rw [List.append_nil, Token.scan_nil, Except.map, List.append_nil] at scanned
  rw [parse_eq_ok_iff, toList_condensed]
  exact ofChars_of_scan_words scanned

/-- The moves whose words come first are the first moves. -/
theorem prefix_moves_of_tokens {p : Phrase} {more : List Token}
    (h : p.tokens = a.words ++ more) : a <+: p.moves := by
  induction a generalizing p with
  | nil => exact List.nil_prefix
  | cons m rest ih =>
    cases p with
    | done => cases h
    | group content count p => cases h
    | move first p =>
      obtain ⟨word, later⟩ := List.cons.inj h
      have same := first.ofChars?_text
      rw [Token.move.inj word, m.ofChars?_chars] at same
      cases same
      exact List.cons_prefix_cons.2 ⟨rfl, ih later⟩

theorem prefix_of_parse_condensed (blurs : a.BlursAt before m) (h : parse a.condensed = .ok b) :
    before ++ [m.withAmount .half] <+: b := by
  obtain ⟨⟨k, after, rfl, runs⟩, legible⟩ := blurs
  obtain ⟨rest, taken⟩ := runs.exists_chars (after.flatMap Move.chars)
  -- The two goes to the move before it. What is left of the width may be read as anything.
  have chars : (before ++ m :: k :: after).flatMap Move.chars =
      (before ++ [m.withAmount .half]).flatMap Move.chars ++ rest := by
    simp only [List.flatMap_append, List.flatMap_cons, List.flatMap_nil, List.append_nil,
      List.append_assoc, taken]
  -- The moves before it are met by the same characters as without the two.
  have still : (before ++ [m.withAmount .half]).Legible := by
    obtain ⟨first, -, joined⟩ := List.isChain_append.1 legible
    refine List.isChain_append.2 ⟨first, List.isChain_singleton _, fun k hk half hhalf => ?_⟩
    cases hhalf
    exact fun meets => joined k hk m rfl meets.of_withAmount
  have last : ∀ k ∈ (before ++ [m.withAmount .half]).getLast?, k.EndsBefore rest := by
    rw [List.getLast?_concat]
    rintro _ ⟨⟩ clockwise
    cases clockwise
  rw [parse_eq_ok_iff, toList_condensed, chars] at h
  obtain ⟨p, scanned, rfl⟩ := exists_phrase_of_ofChars h
  rw [scan_flatMap_chars still last] at scanned
  cases more : Token.scan rest with
  | error flaw => rw [more] at scanned; cases scanned
  | ok tokens =>
    rw [more] at scanned
    exact prefix_moves_of_tokens (Except.ok.inj scanned).symm

/-- Blanks can be left out of what is printed just where no move runs into the next. Where
one does, what is read, if anything, has half a turn in the place of the first such move. -/
theorem parse_condensed (a : Algorithm) :
    (parse a.condensed = .ok a ↔
      ¬ ∃ before m k after, a = before ++ m :: k :: after ∧ m.RunsInto k) ∧
    ∀ before m b, a.BlursAt before m → parse a.condensed = .ok b →
      before ++ [m.withAmount .half] <+: b ∧ b ≠ a := by
  have other : ∀ before m b, a.BlursAt before m → parse a.condensed = .ok b →
      before ++ [m.withAmount .half] <+: b ∧ b ≠ a := by
    intro before m b blurs h
    have begins := prefix_of_parse_condensed blurs h
    refine ⟨begins, ?_⟩
    rintro rfl
    obtain ⟨⟨k, after, rfl, runs⟩, -⟩ := blurs
    have same := (List.cons_prefix_cons.1 ((List.prefix_append_right_inj before).1 begins)).1
    have half := congrArg Move.amount same
    rw [runs.clockwise] at half
    cases half
  refine ⟨?_, other⟩
  rw [← legible_iff]
  refine ⟨fun h => ?_, parse_condensed_of_legible⟩
  by_contra blurred
  obtain ⟨before, m, blurs⟩ := exists_blursAt blurred
  exact (other before m a blurs h).2 rfl

/-- The moves `R` and `25Uw`. -/
def blurred : Algorithm :=
  [.single (.outer .r) .clockwise,
    ⟨25, .outer .u, .clockwise, by decide, by decide, by decide⟩]

/-- The moves `R2` and `5Uw`. -/
def misread : Algorithm :=
  [.single (.outer .r) .half, ⟨5, .outer .u, .clockwise, by decide, by decide, by decide⟩]

theorem parse_condensed_blurred :
    blurred.condensed = "R25Uw" ∧ blurred.BlursAt [] (.single (.outer .r) .clockwise) ∧
    parse blurred.condensed = .ok misread ∧
    [(Move.single (.outer .r) .clockwise).withAmount .half] <+: misread ∧ misread ≠ blurred := by
  have blurs : blurred.BlursAt [] (.single (.outer .r) .clockwise) :=
    ⟨⟨_, [], rfl, rfl, by decide, by decide⟩, List.isChain_singleton _⟩
  have reads : parse blurred.condensed = .ok misread := by decide +kernel
  obtain ⟨-, other⟩ := parse_condensed blurred
  exact ⟨by decide +kernel, blurs, reads, other _ _ misread blurs reads⟩

end Algorithm

end Twisty
