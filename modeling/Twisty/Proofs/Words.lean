import Twisty.Notation.Parser

/-! The words of a text. What is read as one move is spelled in one way, up to padding of
its digits, and where nothing follows that could belong to it, it is found as one word.
What is found are all the words there are, with nothing but blanks around them. -/

namespace Twisty

open Text

/-! ## Where words end -/

/-- What cannot belong to a move, nor to the count of a group. -/
def isBreak (c : Char) : Bool := isBlank c || c == '(' || c == ')'

theorem isBreak_eq_false_iff {c : Char} :
    isBreak c = false ↔ isBlank c = false ∧ c ≠ '(' ∧ c ≠ ')' := by
  simp only [isBreak, Bool.or_eq_false_iff, beq_eq_false_iff_ne, and_assoc]

/-- A word ends here, and so does the text perhaps. -/
def Ends (cs : List Char) : Prop := ∀ c ∈ cs.head?, isBreak c = true

theorem ends_nil : Ends [] := fun c hc => absurd hc (Option.not_mem_none c)

theorem ends_cons {c : Char} (h : isBreak c = true) (cs : List Char) : Ends (c :: cs) := by
  intro d hd
  cases hd
  exact h

theorem isBreak_of_isBlank {c : Char} (h : isBlank c = true) : isBreak c = true := by
  simp [isBreak, h]

theorem isBreak_of_isAlphanum {c : Char} (h : c.isAlphanum = true) : isBreak c = false := by
  have notOpening : c ≠ '(' := by rintro rfl; cases h
  have notClosing : c ≠ ')' := by rintro rfl; cases h
  exact isBreak_eq_false_iff.2 ⟨isBlank_of_isAlphanum h, notOpening, notClosing⟩

/-- Nothing with a property that no break has follows where a word ends. -/
theorem Ends.not {p : Char → Bool} (never : ∀ c, isBreak c = true → p c = false)
    {cs : List Char} (h : Ends cs) : ∀ c ∈ cs.head?, p c = false :=
  fun c hc => never c (h c hc)

theorem not_isDigit_of_isBreak (c : Char) (h : isBreak c = true) : c.isDigit = false := by
  rw [← Bool.not_eq_true]
  intro digit
  rw [isBreak_of_isAlphanum (by simp [Char.isAlphanum, digit])] at h
  cases h

theorem ne_of_isBreak {d : Char} (hd : isBreak d = false) (c : Char) (h : isBreak c = true) :
    (c == d) = false := by
  rw [beq_eq_false_iff_ne]
  rintro rfl
  rw [hd] at h
  cases h

theorem not_isMark_of_isBreak : ∀ c, isBreak c = true → Token.isMark c = false :=
  ne_of_isBreak (by decide)

theorem not_isTurnSuffix_of_isBreak (c : Char) (h : isBreak c = true) :
    Token.isTurnSuffix c = false := by
  rw [Token.isTurnSuffix, ne_of_isBreak (by decide) c h, ne_of_isBreak (by decide) c h]
  rfl

/-! ## The spelling of a move -/

theorem Letter.isAlpha_char (letter : Letter) : letter.char.isAlpha = true := by
  have each : ∀ letter ∈ all, letter.char.isAlpha = true := by decide
  exact each letter letter.mem_all

/-- No letter belongs to the digits before it. -/
theorem Letter.head?_cons (letter : Letter) (cs : List Char) :
    ∀ c ∈ (letter.char :: cs).head?, c.isDigit = false := by
  have each : ∀ letter ∈ all, letter.char.isDigit = false := by decide
  intro c hc
  cases hc
  exact each letter letter.mem_all

namespace Move

def mark (marked : Bool) : List Char := if marked then ['w'] else []

theorem splitFirst_mark {p : Char → Bool} (hp : p 'w' = true) (marked : Bool) {cs : List Char}
    (stop : ∀ c ∈ cs.head?, p c = false) :
    splitFirst p (mark marked ++ cs) = (mark marked, cs) := by
  cases marked with
  | false => exact splitFirst_of_head stop
  | true => exact splitFirst_cons hp cs

/-- A suffix is split off whole. If there is none, nothing that looks like one may follow. -/
theorem splitFirst_suffix {p : Char → Bool} (apostrophe : p '\'' = true) (two : p '2' = true)
    (amount : Amount) {cs : List Char}
    (stop : amount = .clockwise → ∀ c ∈ cs.head?, p c = false) :
    splitFirst p (amount.suffix ++ cs) = (amount.suffix, cs) := by
  cases amount with
  | clockwise => exact splitFirst_of_head (stop rfl)
  | counterclockwise => exact splitFirst_cons apostrophe cs
  | half => exact splitFirst_cons two cs

theorem splitFirst_eq_mark (cs : List Char) :
    (splitFirst (· == 'w') cs).1 = mark ((splitFirst (· == 'w') cs).1 != []) := by
  cases cs with
  | nil => rfl
  | cons c rest =>
    simp only [splitFirst]
    split
    · rename_i h
      rw [eq_of_beq h]
      rfl
    · rfl

theorem head?_suffix_append {p : Char → Bool} (apostrophe : p '\'' = false) (two : p '2' = false)
    (amount : Amount) {cs : List Char}
    (stop : amount = .clockwise → ∀ c ∈ cs.head?, p c = false) :
    ∀ c ∈ (amount.suffix ++ cs).head?, p c = false := by
  cases amount with
  | clockwise => exact stop rfl
  | counterclockwise => intro c hc; cases hc; exact apostrophe
  | half => intro c hc; cases hc; exact two

/-- A word is read as a move just if it is digits, the move's letter, the mark or not, and
the suffix of its amount, where digits and mark ask for its width. -/
theorem ofChars?_eq_some_iff {word : List Char} {m : Move} :
    ofChars? word = some m ↔ ∃ digits marked, (∀ c ∈ digits, c.isDigit = true) ∧
      readWidth? digits marked = some m.width ∧
      word = digits ++ m.letter.char :: (mark marked ++ m.amount.suffix) := by
  constructor
  · intro h
    unfold ofChars? at h
    split at h
    · cases h
    rename_i c rest behind
    simp only [Option.bind_eq_bind, Option.bind_eq_some_iff, new?_eq_some_iff] at h
    obtain ⟨letter, hletter, amount, hamount, width, hwidth, ewidth, eletter, eamount⟩ := h
    have spelled := leadingDigits_append word
    have parted := splitFirst_append (· == 'w') rest
    rw [splitFirst_eq_mark, ← Amount.ofSuffix?_eq_some_iff.1 hamount] at parted
    rw [behind, ← parted, ← Letter.ofChar?_eq_some_iff.1 hletter] at spelled
    subst ewidth eletter eamount
    exact ⟨_, _, fun _ => isDigit_of_mem_leadingDigits, hwidth, spelled.symm⟩
  · rintro ⟨digits, marked, alldigits, hwidth, rfl⟩
    have stop := m.letter.head?_cons (mark marked ++ m.amount.suffix)
    have nothing : ∀ c ∈ ([] : List Char).head?, (c == 'w') = false :=
      fun c hc => absurd hc (Option.not_mem_none c)
    have parts := splitFirst_mark (p := (· == 'w')) rfl marked
      (head?_suffix_append (by decide) (by decide) m.amount fun _ => nothing)
    rw [List.append_nil] at parts
    have marks : (mark marked != []) = marked := by cases marked <;> rfl
    simp only [ofChars?, afterDigits_of_append alldigits stop,
      leadingDigits_of_append alldigits stop, parts, marks, Letter.ofChar?_char,
      Amount.ofSuffix?_suffix, hwidth, Option.bind_eq_bind, Option.bind_some]
    exact new?_eq_some_iff.2 ⟨rfl, rfl, rfl⟩

/-- Nothing follows that a move would take for its own. Only one without a suffix can take
more. -/
def EndsBefore (m : Move) (cs : List Char) : Prop :=
  m.amount = .clockwise → ∀ c ∈ cs.head?, Token.isMark c = false ∧ Token.isTurnSuffix c = false

theorem endsBefore_of_ends (m : Move) {cs : List Char} (ends : Ends cs) : m.EndsBefore cs := by
  intro _ c hc
  exact ⟨not_isMark_of_isBreak c (ends c hc), not_isTurnSuffix_of_isBreak c (ends c hc)⟩

theorem parse_eq_ok_iff {text : String} {m : Move} :
    parse text = .ok m ↔ ofChars? text.toList = some m := by
  rw [parse]
  cases ofChars? text.toList <;> simp

theorem parse_eq_error_iff {text : String} :
    parse text = .error (.move text) ↔ ofChars? text.toList = none := by
  rw [parse]
  cases ofChars? text.toList <;> simp

end Move

namespace Token

/-! ## One word -/

theorem splitWord_append_of_endsBefore {word after : List Char} {m : Move}
    (reads : Move.ofChars? word = some m) (ends : m.EndsBefore after) :
    splitWord (word ++ after) = (word, after) := by
  obtain ⟨digits, marked, alldigits, -, rfl⟩ := Move.ofChars?_eq_some_iff.1 reads
  have stop := m.letter.head?_cons (Move.mark marked ++ (m.amount.suffix ++ after))
  have marks := Move.splitFirst_mark (p := isMark) rfl marked
    (Move.head?_suffix_append (by decide) (by decide) m.amount
      fun turns c hc => (ends turns c hc).1)
  have suffix := Move.splitFirst_suffix (p := isTurnSuffix) rfl rfl m.amount
    fun turns c hc => (ends turns c hc).2
  simp only [List.append_assoc, List.cons_append, splitWord, afterDigits_of_append alldigits stop,
    leadingDigits_of_append alldigits stop, Letter.isAlpha_char, if_true, marks, suffix]

theorem head?_word {word : List Char} {m : Move} (reads : Move.ofChars? word = some m) :
    ∃ c rest, word = c :: rest ∧ isBreak c = false := by
  obtain ⟨digits, marked, alldigits, -, rfl⟩ := Move.ofChars?_eq_some_iff.1 reads
  cases digits with
  | nil =>
    refine ⟨_, _, rfl, isBreak_of_isAlphanum ?_⟩
    rw [Char.isAlphanum, Letter.isAlpha_char, Bool.true_or]
  | cons d rest =>
    refine ⟨_, _, rfl, isBreak_of_isAlphanum ?_⟩
    rw [Char.isAlphanum, alldigits d List.mem_cons_self, Bool.or_true]

theorem scan_nil : scan [] = .ok [] := by
  unfold scan
  rfl

theorem scan_of_next {c : Char} {rest after : List Char} {token : Option Token}
    (h : next c rest = .ok (token, after)) :
    scan (c :: rest) = (scan after).map (token.toList ++ ·) := by
  rw [scan]
  split
  · rename_i e
    rw [h] at e
    cases e
  · rename_i e
    rw [h] at e
    cases e
    rfl

theorem scan_of_next_error {c : Char} {rest : List Char} {flaw : Flaw}
    (h : next c rest = .error flaw) : scan (c :: rest) = .error flaw := by
  rw [scan]
  split
  · rename_i e
    rw [h] at e
    cases e
    rfl
  · rename_i e
    rw [h] at e
    cases e

theorem scan_word_of_endsBefore {word after : List Char} {m : Move}
    (reads : Move.ofChars? word = some m) (ends : m.EndsBefore after) :
    scan (word ++ after) = (scan after).map (move word :: ·) := by
  obtain ⟨c, rest, rfl, notBreak⟩ := head?_word reads
  simp only [isBreak, Bool.or_eq_false_iff, beq_eq_false_iff_ne] at notBreak
  obtain ⟨⟨notBlank, notOpening⟩, notClosing⟩ := notBreak
  have found : next c (rest ++ after) = .ok (some (move (c :: rest)), after) := by
    have split := splitWord_append_of_endsBefore reads ends
    rw [List.cons_append] at split
    rw [next, if_neg (by simp [notBlank]), if_neg notOpening, if_neg notClosing, split]
  exact scan_of_next found

theorem scan_word {word after : List Char} {m : Move} (reads : Move.ofChars? word = some m)
    (ends : Ends after) : scan (word ++ after) = (scan after).map (move word :: ·) :=
  scan_word_of_endsBefore reads (m.endsBefore_of_ends ends)

theorem scan_opening (cs : List Char) :
    scan ('(' :: cs) = (scan cs).map (opening :: ·) :=
  scan_of_next (show next '(' cs = .ok (some opening, cs) from rfl)

theorem scan_closing {count after : List Char} (digits : ∀ c ∈ count, c.isDigit = true)
    (ends : Ends after) :
    scan (')' :: (count ++ after)) = (scan after).map (closing count :: ·) := by
  have notDigit := ends.not not_isDigit_of_isBreak
  have notSuffix : ∀ c ∈ after.head?, (c == '\'' || c == 'w') = false := by
    intro c hc
    rw [ne_of_isBreak (by decide) c (ends c hc), ne_of_isBreak (by decide) c (ends c hc)]
    rfl
  have found : next ')' (count ++ after) = .ok (some (closing count), after) := by
    rw [next, if_neg (by decide), if_neg (by decide), if_pos rfl,
      afterDigits_of_append digits notDigit, leadingDigits_of_append digits notDigit,
      splitFirst_of_head notSuffix]
  exact scan_of_next found

theorem scan_blank {c : Char} (blank : isBlank c = true) (cs : List Char) :
    scan (c :: cs) = scan cs := by
  have found : next c cs = .ok (none, cs) := by rw [next, if_pos blank]
  rw [scan_of_next found]
  cases scan cs <;> rfl

theorem scan_blanks {blanks : List Char} (h : ∀ c ∈ blanks, isBlank c = true) (cs : List Char) :
    scan (blanks ++ cs) = scan cs := by
  induction blanks with
  | nil => rfl
  | cons c rest ih =>
    obtain ⟨hc, hrest⟩ := List.forall_mem_cons.1 h
    rw [List.cons_append, scan_blank hc, ih hrest]

/-! ## All words -/

/-- Words in their order, with any blanks before, between and behind them. -/
inductive Spread : List Token → List Char → Prop
  | nil : Spread [] []
  | blank {tokens : List Token} {cs : List Char} {c : Char} :
      isBlank c = true → Spread tokens cs → Spread tokens (c :: cs)
  | word {tokens : List Token} {cs : List Char} (token : Token) :
      Spread tokens cs → Spread (token :: tokens) (token.chars ++ cs)

/-- Neither a blank nor a parenthesis stands inside a word. -/
def IsPlain : Token → Prop
  | move word => ∀ c ∈ word, isBreak c = false
  | opening => True
  | closing count => ∀ c ∈ count, isBreak c = false

/-- A word of a move has only digits, letters and the apostrophe. -/
theorem of_mem_splitWord {P : Char → Prop} (alphanumeric : ∀ c, c.isAlphanum = true → P c)
    (apostrophe : P '\'') (cs : List Char) : ∀ c ∈ (splitWord cs).1, P c := by
  have digits : ∀ c ∈ leadingDigits cs, P c := by
    intro c hc
    refine alphanumeric c ?_
    rw [Char.isAlphanum, isDigit_of_mem_leadingDigits hc, Bool.or_true]
  unfold splitWord
  split
  · exact digits
  split
  · rename_i letter
    simp only [List.append_assoc, List.cons_append, List.forall_mem_append, List.forall_mem_cons]
    refine ⟨digits, ?_, fun c hc => ?_, fun c hc => ?_⟩
    · refine alphanumeric _ ?_
      rw [Char.isAlphanum, letter, Bool.true_or]
    · have mark := of_mem_splitFirst hc
      rw [isMark, beq_iff_eq] at mark
      subst mark
      exact alphanumeric 'w' rfl
    · have suffix := of_mem_splitFirst hc
      rw [isTurnSuffix, Bool.or_eq_true, beq_iff_eq, beq_iff_eq] at suffix
      rcases suffix with rfl | rfl
      · exact alphanumeric '2' rfl
      · exact apostrophe
  · exact digits

theorem not_isBreak_of_mem_leadingDigits {cs : List Char} :
    ∀ c ∈ leadingDigits cs, isBreak c = false := by
  intro c hc
  refine isBreak_of_isAlphanum ?_
  rw [Char.isAlphanum, isDigit_of_mem_leadingDigits hc, Bool.or_true]

theorem not_isBreak_of_mem_splitWord (cs : List Char) :
    ∀ c ∈ (splitWord cs).1, isBreak c = false :=
  of_mem_splitWord (fun _ => isBreak_of_isAlphanum) rfl cs

/-- A blank is passed over, or a word is taken. -/
theorem next_cases {c : Char} {rest after : List Char} {token : Option Token}
    (h : next c rest = .ok (token, after)) :
    (token = none ∧ isBlank c = true ∧ after = rest) ∨
      ∃ word, token = some word ∧ word.IsPlain ∧ word.chars ++ after = c :: rest := by
  unfold next at h
  split at h
  · rename_i blank
    cases h
    exact Or.inl ⟨rfl, blank, rfl⟩
  split at h
  · rename_i opens
    cases h
    exact Or.inr ⟨opening, rfl, trivial, by rw [opens]; rfl⟩
  split at h
  · rename_i closes
    split at h
    · rename_i behind
      have digits := leadingDigits_append rest
      have none := splitFirst_append (fun x => x == '\'' || x == 'w') (afterDigits rest)
      rw [behind] at none
      cases h
      refine Or.inr ⟨closing (leadingDigits rest), rfl, not_isBreak_of_mem_leadingDigits, ?_⟩
      rw [← none, List.nil_append] at digits
      rw [chars, List.cons_append, digits, closes]
    · cases h
  · split at h
    · cases h
    · rename_i word tail _ split
      have whole := splitWord_append (c :: rest)
      have plain := not_isBreak_of_mem_splitWord (c :: rest)
      rw [split] at whole plain
      cases h
      exact Or.inr ⟨move word, rfl, plain, whole⟩

/-- A word of nothing is split off where neither a digit nor a letter is. -/
theorem not_isAlphanum_of_splitWord {c : Char} {rest after : List Char}
    (h : splitWord (c :: rest) = ([], after)) : c.isAlphanum = false := by
  rw [Char.isAlphanum, Bool.or_eq_false_iff]
  by_cases digit : c.isDigit = true
  · have some : leadingDigits (c :: rest) = c :: leadingDigits rest := by
      simp [leadingDigits, digit]
    unfold splitWord at h
    split at h
    · simp [some] at h
    · split at h <;> simp [some] at h
  · refine ⟨?_, by simpa using digit⟩
    have behind : afterDigits (c :: rest) = c :: rest := by simp [afterDigits, digit]
    rw [← Bool.not_eq_true]
    intro letter
    simp [splitWord, behind, letter] at h

/-- No word begins here, or a group is followed by what belongs to a move. -/
theorem next_error_cases {c : Char} {rest : List Char} {flaw : Flaw}
    (h : next c rest = .error flaw) :
    (c.isAlphanum = false ∧ flaw = .move [c]) ∨
      ∃ suffix after, c = ')' ∧ (suffix = '\'' ∨ suffix = 'w') ∧
        rest = leadingDigits rest ++ suffix :: after ∧
        flaw = .grouping (.badCount (String.ofList (leadingDigits rest ++ [suffix]))) := by
  unfold next at h
  split at h
  · cases h
  split at h
  · cases h
  split at h
  · rename_i closes
    right
    have digits := leadingDigits_append rest
    cases behind : afterDigits rest with
    | nil => rw [behind] at h; cases h
    | cons suffix after =>
      rw [behind] at h digits
      by_cases belongs : (suffix == '\'' || suffix == 'w') = true
      · rw [splitFirst_cons belongs] at h
        cases h
        refine ⟨suffix, after, closes, ?_, digits.symm, rfl⟩
        simpa using belongs
      · rw [splitFirst_of_head (by simpa using belongs)] at h
        cases h
  · split at h
    · rename_i nothing
      cases h
      exact Or.inl ⟨not_isAlphanum_of_splitWord nothing, rfl⟩
    · cases h

/-- What holds of no words, and with each word that is found, holds of all words of a text. -/
theorem of_scan {P : List Char → List Token → Prop} (nil : P [] [])
    (step : ∀ {c : Char} {rest after : List Char} {token : Option Token} {tokens : List Token},
      next c rest = .ok (token, after) → scan after = .ok tokens → P after tokens →
      P (c :: rest) (token.toList ++ tokens))
    {cs : List Char} {tokens : List Token} (h : scan cs = .ok tokens) : P cs tokens := by
  induction cs using scan.induct generalizing tokens with
  | case1 =>
    rw [scan_nil] at h
    cases h
    exact nil
  | case2 c rest flaw fails =>
    rw [scan_of_next_error fails] at h
    cases h
  | case3 c rest token after found ih =>
    rw [scan_of_next found] at h
    cases scanned : scan after with
    | error flaw => rw [scanned] at h; cases h
    | ok tokens =>
      rw [scanned] at h
      cases h
      exact step found scanned (ih scanned)

theorem suffix_of_next {c : Char} {rest after : List Char} {token : Option Token}
    (h : next c rest = .ok (token, after)) : after <:+ c :: rest := by
  rcases next_cases h with ⟨-, -, rfl⟩ | ⟨word, -, -, whole⟩
  · exact List.suffix_cons c after
  · rw [← whole]
    exact List.suffix_append word.chars after

/-- Finding words fails at a place in the text. -/
theorem exists_next_of_scan {cs : List Char} {flaw : Flaw} (h : scan cs = .error flaw) :
    ∃ c rest, c :: rest <:+ cs ∧ next c rest = .error flaw := by
  induction cs using scan.induct with
  | case1 =>
    rw [scan_nil] at h
    cases h
  | case2 c rest other fails =>
    rw [scan_of_next_error fails] at h
    cases h
    exact ⟨c, rest, List.suffix_rfl, fails⟩
  | case3 c rest token after found ih =>
    rw [scan_of_next found] at h
    cases scanned : scan after with
    | error other =>
      rw [scanned] at h
      cases h
      obtain ⟨d, behind, later, fails⟩ := ih scanned
      exact ⟨d, behind, later.trans (suffix_of_next found), fails⟩
    | ok tokens => rw [scanned] at h; cases h

/-- Nothing is lost in finding the words. -/
theorem spread_of_scan {cs : List Char} {tokens : List Token} (h : scan cs = .ok tokens) :
    Spread tokens cs := by
  refine of_scan (P := fun cs tokens => Spread tokens cs) .nil (fun found _ spread => ?_) h
  rcases next_cases found with ⟨rfl, blank, rfl⟩ | ⟨word, rfl, -, whole⟩
  · exact .blank blank spread
  · rw [← whole]
    exact .word word spread

theorem isPlain_of_scan {cs : List Char} {tokens : List Token} (h : scan cs = .ok tokens) :
    ∀ token ∈ tokens, token.IsPlain := by
  refine of_scan (P := fun _ tokens => ∀ token ∈ tokens, token.IsPlain) (List.forall_mem_nil _)
    (fun found _ later => ?_) h
  rcases next_cases found with ⟨rfl, -, -⟩ | ⟨word, rfl, plain, -⟩
  · exact later
  · exact List.forall_mem_cons.2 ⟨plain, later⟩

end Token

end Twisty
