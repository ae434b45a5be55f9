import Twisty.Proofs.Phrase
import Mathlib.Control.Monad.Basic

/-! Reading algorithms. Groups are written out when they close, so what is held while a
text is read are the moves of whole phrases: one for the innermost open group, and one for
what lies before each open parenthesis. -/

namespace Twisty

open Text

namespace Pending

/-! ## One word after another -/

theorem take_move_eq_ok_iff {p q : Pending} {word : List Char} :
    p.take (.move word) = .ok q ↔ ∃ m, Move.ofChars? word = some m ∧ q = p.push m := by
  rw [take]
  cases Move.ofChars? word <;> simp [eq_comm]

theorem take_move_eq_error_iff {p : Pending} {word : List Char} {flaw : Flaw} :
    p.take (.move word) = .error flaw ↔ Move.ofChars? word = none ∧ flaw = .move word := by
  rw [take]
  cases Move.ofChars? word <;> simp [eq_comm]

theorem take_closing_eq_ok_iff {p q : Pending} {count : List Char} :
    p.take (.closing count) = .ok q ↔ p.closeGroup count = .ok q := by
  rw [take]
  cases p.closeGroup count <;> simp [Except.mapError]

theorem take_closing_eq_error_iff {p : Pending} {count : List Char} {flaw : Flaw} :
    p.take (.closing count) = .error flaw ↔
      ∃ fault, p.closeGroup count = .error fault ∧ flaw = .grouping fault := by
  rw [take]
  cases p.closeGroup count <;> simp [Except.mapError, eq_comm]

theorem takeAll_cons_eq_ok_iff {p q : Pending} {token : Token} {rest : List Token} :
    p.takeAll (token :: rest) = .ok q ↔
      ∃ next, p.take token = .ok next ∧ next.takeAll rest = .ok q := by
  rw [takeAll]
  cases p.take token <;> simp

theorem takeAll_cons_eq_error_iff {p : Pending} {token : Token} {rest : List Token}
    {flaw : Flaw} :
    p.takeAll (token :: rest) = .error flaw ↔
      p.take token = .error flaw ∨
      ∃ next, p.take token = .ok next ∧ next.takeAll rest = .error flaw := by
  rw [takeAll]
  cases p.take token <;> simp

theorem finish_eq_ok_iff {p : Pending} {a : Algorithm} :
    p.finish = .ok a ↔ p.outer = [] ∧ p.current.reverse = a := by
  rw [finish]
  split <;> simp [*]

theorem finish_eq_error_iff {p : Pending} {flaw : Flaw} :
    p.finish = .error flaw ↔ p.outer ≠ [] ∧ flaw = .grouping .unclosedOpen := by
  rw [finish]
  split <;> simp [*, eq_comm]

/-! ## There is room -/

theorem held_openGroup (current : List Move) (outer : List (List Move)) :
    held [] (current :: outer) = held current outer + 1 := by
  simp only [held, List.length_nil, List.flatten_cons, List.length_append, List.length_cons]
  omega

theorem held_append (more current : List Move) (outer : List (List Move)) :
    held (more ++ current) outer = held current outer + more.length := by
  simp only [held, List.length_append]
  omega

theorem take_closing {content : Algorithm} {before : List Move} {outer : List (List Move)}
    (count : Option RepeatCount)
    (room : held before outer + (RepeatCount.expand count content).length ≤ capacity) :
    take ⟨content.reverse, before :: outer⟩ (.closing (RepeatCount.chars count)) =
      .ok ⟨(RepeatCount.expand count content).reverse ++ before, outer⟩ := by
  rw [RepeatCount.length_expand, Nat.mul_comm, ← List.length_reverse] at room
  simp only [take, closeGroup, RepeatCount.readCount_chars, RepeatCount.copies_reverse,
    if_pos (Or.inr room), Except.mapError]

theorem exists_of_closeGroup {current : List Move} {outer : List (List Move)}
    {digits : List Char} {q : Pending} (h : closeGroup ⟨current, outer⟩ digits = .ok q) :
    ∃ count before rest, RepeatCount.chars count = digits ∧ outer = before :: rest ∧
      q = ⟨Algorithm.copies (RepeatCount.times count) current ++ before, rest⟩ := by
  unfold closeGroup at h
  split at h
  · cases h
  rename_i times counted
  obtain ⟨count, rfl, rfl⟩ := RepeatCount.exists_of_readCount counted
  cases outer with
  | nil => cases h
  | cons before rest =>
    dsimp only at h
    split at h
    · cases h
      exact ⟨count, before, rest, rfl, rfl, rfl⟩
    · cases h

theorem takeAll_of_take {p q : Pending} {token : Token} (h : p.take token = .ok q)
    (rest : List Token) : p.takeAll (token :: rest) = q.takeAll rest := by
  rw [takeAll, h]

/-- A phrase leaves its moves behind if there is room for them and for its parentheses.
What is held on the way is never more than that, as every group is repeated at least
once. -/
theorem takeAll_tokens {p : Phrase} {current : List Move} {outer : List (List Move)}
    (room : held current outer + (p.moves.length + p.groups) ≤ capacity) (more : List Token) :
    takeAll ⟨current, outer⟩ (p.tokens ++ more) =
      takeAll ⟨p.moves.reverse ++ current, outer⟩ more := by
  induction p generalizing current outer more with
  | done => rfl
  | move first rest ih =>
    have taken : take ⟨current, outer⟩ (.move first.text.toList) =
        .ok ⟨first.move :: current, outer⟩ := by
      simp only [take, first.ofChars?_text, push]
    have one : held (first.move :: current) outer = held current outer + 1 :=
      held_append [first.move] current outer
    simp only [Phrase.moves, Phrase.groups, List.length_cons] at room
    rw [Phrase.tokens, List.cons_append, takeAll_of_take taken, ih (by omega)]
    simp [Phrase.moves]
  | group content count rest ihcontent ihrest =>
    have once : content.moves.length ≤ (RepeatCount.expand count content.moves).length := by
      rw [RepeatCount.length_expand]
      exact Nat.le_mul_of_pos_left _ (RepeatCount.one_le_times count)
    simp only [Phrase.moves, Phrase.groups, List.length_append] at room
    have inside : held [] (current :: outer) + (content.moves.length + content.groups) ≤
        capacity := by
      rw [held_openGroup]
      omega
    have opened : take ⟨current, outer⟩ .opening = .ok ⟨[], current :: outer⟩ := rfl
    have closed : take ⟨content.moves.reverse ++ [], current :: outer⟩
        (.closing (RepeatCount.chars count)) =
          .ok ⟨(RepeatCount.expand count content.moves).reverse ++ current, outer⟩ := by
      rw [List.append_nil, take_closing count (by omega)]
    have behind : held ((RepeatCount.expand count content.moves).reverse ++ current) outer +
        (rest.moves.length + rest.groups) ≤ capacity := by
      rw [held_append, List.length_reverse]
      omega
    rw [Phrase.tokens, List.cons_append, List.append_assoc, List.cons_append,
      takeAll_of_take opened, ihcontent inside, takeAll_of_take closed, ihrest behind]
    simp only [Phrase.moves, List.reverse_append, List.append_assoc]

/-! ## What is held are phrases -/

/-- Words read so far and what is held of them: outside any group the moves of a phrase,
and inside one the moves of a phrase and what was held before it opened. -/
inductive Reads : List Token → Pending → Prop
  | outside (p : Phrase) : Reads p.tokens ⟨p.moves.reverse, []⟩
  | inside {tokens : List Token} {before : List Move} {outer : List (List Move)} (p : Phrase) :
      Reads tokens ⟨before, outer⟩ →
      Reads (tokens ++ .opening :: p.tokens) ⟨p.moves.reverse, before :: outer⟩

namespace Reads

theorem append {tokens : List Token} {current : List Move} {outer : List (List Move)}
    (h : Reads tokens ⟨current, outer⟩) (q : Phrase) :
    Reads (tokens ++ q.tokens) ⟨q.moves.reverse ++ current, outer⟩ := by
  cases h with
  | outside p =>
    rw [← Phrase.tokens_append, ← List.reverse_append, ← Phrase.moves_append]
    exact outside _
  | inside p before =>
    rw [List.append_assoc, List.cons_append, ← Phrase.tokens_append, ← List.reverse_append,
      ← Phrase.moves_append]
    exact inside _ before

theorem take {tokens : List Token} {p q : Pending} (h : Reads tokens p) {token : Token}
    (taken : p.take token = .ok q) : Reads (tokens ++ [token]) q := by
  cases token with
  | move word =>
    obtain ⟨m, reads, rfl⟩ := take_move_eq_ok_iff.1 taken
    have text : Move.parse (String.ofList word) = .ok m := by
      rw [Move.parse_eq_ok_iff, String.toList_ofList, reads]
    have next := h.append (.move ⟨String.ofList word, m, text⟩ .done)
    simpa [Phrase.tokens, Phrase.moves, push] using next
  | opening =>
    cases taken
    exact inside .done h
  | closing digits =>
    obtain ⟨current, outer⟩ := p
    obtain ⟨count, before, rest, rfl, rfl, rfl⟩ :=
      exists_of_closeGroup (take_closing_eq_ok_iff.1 taken)
    cases h with
    | inside p outside =>
      have group := outside.append (.group p count .done)
      rw [RepeatCount.copies_reverse]
      simpa [Phrase.tokens, Phrase.moves] using group

/-- By induction on the words that are left. -/
theorem takeAll {tokens : List Token} {p q : Pending} (h : Reads tokens p) {rest : List Token}
    (taken : p.takeAll rest = .ok q) : Reads (tokens ++ rest) q := by
  induction rest generalizing tokens p with
  | nil =>
    cases taken
    rwa [List.append_nil]
  | cons token rest ih =>
    obtain ⟨next, first, later⟩ := takeAll_cons_eq_ok_iff.1 taken
    have all := ih (h.take first) later
    rwa [List.append_assoc] at all

end Reads

end Pending

namespace Algorithm

theorem parse_eq_ok_iff {text : String} {a : Algorithm} :
    parse text = .ok a ↔ ofChars text.toList = .ok a := by
  rw [parse]
  cases ofChars text.toList <;> simp [Except.mapError]

theorem ofChars_of_scan {cs : List Char} {tokens : List Token} (h : Token.scan cs = .ok tokens) :
    ofChars cs = (Pending.empty.takeAll tokens).bind Pending.finish := by
  simp only [ofChars, h]
  cases Pending.empty.takeAll tokens <;> rfl

/-- How a reading can end: no words are found, one of them is refused, or all are taken and
the open groups are looked at. -/
theorem ofChars_cases (cs : List Char) :
    (∃ flaw, Token.scan cs = .error flaw ∧ ofChars cs = .error flaw) ∨
    ∃ tokens, Token.scan cs = .ok tokens ∧
      ((∃ flaw, Pending.empty.takeAll tokens = .error flaw ∧ ofChars cs = .error flaw) ∨
      ∃ p, Pending.empty.takeAll tokens = .ok p ∧ ofChars cs = p.finish) := by
  cases scanned : Token.scan cs with
  | error flaw => exact Or.inl ⟨flaw, rfl, by rw [ofChars, scanned]⟩
  | ok tokens =>
    have read := ofChars_of_scan scanned
    refine Or.inr ⟨tokens, rfl, ?_⟩
    cases taken : Pending.empty.takeAll tokens with
    | error flaw =>
      rw [taken] at read
      exact Or.inl ⟨flaw, rfl, read⟩
    | ok p =>
      rw [taken] at read
      exact Or.inr ⟨p, rfl, read⟩

theorem ofChars_eq_ok_iff {cs : List Char} {a : Algorithm} :
    ofChars cs = .ok a ↔ ∃ tokens current, Token.scan cs = .ok tokens ∧
      Pending.empty.takeAll tokens = .ok ⟨current, []⟩ ∧ current.reverse = a := by
  constructor
  · intro h
    rcases ofChars_cases cs with ⟨flaw, -, fails⟩ |
      ⟨tokens, scanned, ⟨flaw, -, fails⟩ | ⟨⟨current, outer⟩, taken, ends⟩⟩
    · cases h.symm.trans fails
    · cases h.symm.trans fails
    · obtain ⟨rfl, said⟩ := Pending.finish_eq_ok_iff.1 (ends.symm.trans h)
      exact ⟨tokens, current, scanned, taken, said⟩
  · rintro ⟨tokens, current, scanned, taken, rfl⟩
    rw [ofChars_of_scan scanned, taken]
    rfl

theorem ofChars_of_written {p : Phrase} {cs : List Char} (h : p.Written 1 0 cs)
    (room : p.moves.length + p.groups ≤ Pending.capacity) : ofChars cs = .ok p.moves := by
  have scanned := Phrase.scan_of_written h ends_nil
  rw [List.append_nil, Token.scan_nil, Except.map] at scanned
  have empty : Pending.held [] [] + (p.moves.length + p.groups) ≤ Pending.capacity := by
    simpa [Pending.held] using room
  have taken : Pending.empty.takeAll (p.tokens ++ []) = .ok ⟨p.moves.reverse ++ [], []⟩ :=
    Pending.takeAll_tokens empty []
  refine ofChars_eq_ok_iff.2 ⟨_, _, scanned, taken, ?_⟩
  rw [List.append_nil, List.reverse_reverse]

/-- What is read are the moves of a phrase that has the words of the text. -/
theorem exists_phrase_of_ofChars {cs : List Char} {a : Algorithm} (h : ofChars cs = .ok a) :
    ∃ p : Phrase, Token.scan cs = .ok p.tokens ∧ p.moves = a := by
  obtain ⟨tokens, current, scanned, taken, rfl⟩ := ofChars_eq_ok_iff.1 h
  have reads : Pending.Reads tokens ⟨current, []⟩ :=
    (Pending.Reads.outside .done).takeAll taken
  cases reads with
  | outside p => exact ⟨p, scanned, (List.reverse_reverse _).symm⟩

theorem exists_written_of_ofChars {cs : List Char} {a : Algorithm} (h : ofChars cs = .ok a) :
    ∃ p : Phrase, p.Written 0 0 cs ∧ p.moves = a := by
  obtain ⟨p, scanned, said⟩ := exists_phrase_of_ofChars h
  have spread := Token.spread_of_scan scanned
  rw [← List.append_nil p.tokens] at spread
  obtain ⟨this, behind, rfl, written, blanks⟩ := Phrase.exists_written_of_spread spread
  exact ⟨p, written.append_blanks (Phrase.isBlank_of_spread_nil blanks), said⟩

/-- Reading finds the moves of every phrase, however deep it is, whatever blanks there are
in its text as long as there is one between neighbours, if its moves and groups can be held
at sixteen bytes each. And nothing is read but phrases. -/
theorem parse_phrase (text : String) :
    (∀ p : Phrase, p.Written 1 0 text.toList →
      (p.moves.length + p.groups) * 16 ≤ 2 ^ 63 - 1 → parse text = .ok p.moves) ∧
    ∀ a, parse text = .ok a → ∃ p : Phrase, p.Written 0 0 text.toList ∧ p.moves = a := by
  refine ⟨fun p written room => ?_, fun a h => ?_⟩
  · refine parse_eq_ok_iff.2 (ofChars_of_written written ?_)
    unfold Pending.capacity
    omega
  · exact exists_written_of_ofChars (parse_eq_ok_iff.1 h)

/-- What `B (R (U F2)3 R')2 F` says. -/
def nested : Phrase :=
  .move ⟨"B", .single (.outer .b) .clockwise, rfl⟩ <|
  .group
    (.move ⟨"R", .single (.outer .r) .clockwise, rfl⟩ <|
      .group
        (.move ⟨"U", .single (.outer .u) .clockwise, rfl⟩ <|
          .move ⟨"F2", .single (.outer .f) .half, rfl⟩ .done)
        (some ⟨['3'], by decide, List.forall_mem_singleton.2 rfl, by decide, by decide⟩) <|
      .move ⟨"R'", .single (.outer .r) .counterclockwise, rfl⟩ .done)
    (some ⟨['2'], by decide, List.forall_mem_singleton.2 rfl, by decide, by decide⟩) <|
  .move ⟨"F", .single (.outer .f) .clockwise, rfl⟩ .done

theorem written_nested : nested.Written 1 0 "B (R (U F2)3 R')2 F".toList := by
  have none : ∀ c ∈ ([] : List Char), isBlank c = true := List.forall_mem_nil _
  have one : ∀ c ∈ [' '], isBlank c = true := List.forall_mem_singleton.2 rfl
  exact .move none (Nat.zero_le _) <| .group one (Nat.le_refl _)
    (.move none (Nat.zero_le _) <| .group one (Nat.le_refl _)
      (.move none (Nat.zero_le _) <| .move one (Nat.le_refl _) <| .done none)
      (.move one (Nat.le_refl _) <| .done none)) <|
    .move one (Nat.le_refl _) <| .done none

theorem parse_nested : nested.Written 1 0 "B (R (U F2)3 R')2 F".toList ∧
    (nested.moves.length + nested.groups) * 16 ≤ 2 ^ 63 - 1 ∧
    parse "B (R (U F2)3 R')2 F" = .ok nested.moves ∧ nested.moves.length = 18 ∧
    ∃ p : Phrase, p.Written 0 0 "B (R (U F2)3 R')2 F".toList ∧ p.moves = nested.moves := by
  obtain ⟨reads, phrases⟩ := parse_phrase "B (R (U F2)3 R')2 F"
  have room : (nested.moves.length + nested.groups) * 16 ≤ 2 ^ 63 - 1 := by decide
  have read := reads nested written_nested room
  exact ⟨written_nested, room, read, by decide, phrases nested.moves read⟩

end Algorithm

end Twisty
