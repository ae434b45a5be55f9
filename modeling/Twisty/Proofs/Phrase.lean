import Twisty.Proofs.Words
import Mathlib.Algebra.Group.Nat.Defs

/-! The grammar of algorithms: moves and groups in a row, where a group has moves and
groups in parentheses and may be repeated. A phrase is what a text says; how many blanks
there are is not part of it. -/

namespace Twisty

open Text

/-- A text that is read as a move. -/
structure MoveText where
  text : String
  move : Move
  reads : Move.parse text = .ok move

theorem MoveText.ofChars?_text (m : MoveText) : Move.ofChars? m.text.toList = some m.move :=
  Move.parse_eq_ok_iff.1 m.reads

/-- A positive count in digits. -/
structure RepeatCount where
  digits : List Char
  nonempty : digits ≠ []
  isDigit : ∀ c ∈ digits, c.isDigit = true
  one_le : 1 ≤ Count.value digits
  le_limit : Count.value digits ≤ Count.limit

namespace RepeatCount

def times : Option RepeatCount → Nat
  | none => 1
  | some count => Count.value count.digits

def chars : Option RepeatCount → List Char
  | none => []
  | some count => count.digits

/-- All the moves of a group that has a count. -/
def expand (count : Option RepeatCount) (a : Algorithm) : Algorithm :=
  (List.replicate (times count) a).flatten

theorem length_expand (count : Option RepeatCount) (a : Algorithm) :
    (expand count a).length = times count * a.length := by
  rw [expand, List.length_flatten, List.map_replicate, List.sum_replicate_nat]

theorem copies_reverse (count : Option RepeatCount) (a : Algorithm) :
    Algorithm.copies (times count) a.reverse = (expand count a).reverse := by
  rw [Algorithm.copies_eq, expand, List.reverse_flatten, List.map_replicate,
    List.reverse_replicate]

theorem one_le_times : ∀ count, 1 ≤ times count
  | none => Nat.le_refl 1
  | some count => count.one_le

theorem isDigit_of_mem_chars : ∀ count, ∀ c ∈ chars count, c.isDigit = true
  | none => List.forall_mem_nil _
  | some count => count.isDigit

theorem readCount_chars (count : Option RepeatCount) :
    Pending.readCount (chars count) = .ok (times count) := by
  cases count with
  | none => rfl
  | some count =>
    have reads : Count.ofDigits? count.digits = some (Count.value count.digits) :=
      Count.ofDigits?_eq_some_iff.2
        ⟨count.nonempty, List.all_eq_true.2 count.isDigit, rfl, count.le_limit⟩
    have positive : (some (Count.value count.digits)).filter (1 ≤ ·) =
        some (Count.value count.digits) :=
      Option.filter_eq_some_iff.2 ⟨rfl, decide_eq_true count.one_le⟩
    rw [chars, Pending.readCount, if_neg count.nonempty, reads, positive]
    rfl

theorem exists_of_readCount {cs : List Char} {n : Nat} (h : Pending.readCount cs = .ok n) :
    ∃ count, chars count = cs ∧ times count = n := by
  unfold Pending.readCount at h
  split at h
  · rename_i missing
    cases h
    exact ⟨none, missing.symm, rfl⟩
  · split at h
    · rename_i times reads
      cases h
      obtain ⟨reads, one_le⟩ := Option.filter_eq_some_iff.1 reads
      obtain ⟨nonempty, digits, rfl, le⟩ := Count.ofDigits?_eq_some_iff.1 reads
      exact ⟨some ⟨cs, nonempty, List.all_eq_true.1 digits, of_decide_eq_true one_le, le⟩,
        rfl, rfl⟩
    · cases h

end RepeatCount

inductive Phrase
  | done
  | move (first : MoveText) (rest : Phrase)
  | group (content : Phrase) (count : Option RepeatCount) (rest : Phrase)

namespace Phrase

/-- What a phrase says to do: a group's moves as often as its count says. -/
def moves : Phrase → Algorithm
  | done => []
  | move first rest => first.move :: rest.moves
  | group content count rest => RepeatCount.expand count content.moves ++ rest.moves

def groups : Phrase → Nat
  | done => 0
  | move _ rest => rest.groups
  | group content _ rest => content.groups + 1 + rest.groups

def tokens : Phrase → List Token
  | done => []
  | move first rest => .move first.text.toList :: rest.tokens
  | group content count rest =>
    .opening :: (content.tokens ++ .closing (RepeatCount.chars count) :: rest.tokens)

def append : Phrase → Phrase → Phrase
  | done, q => q
  | move first rest, q => move first (rest.append q)
  | group content count rest, q => group content count (rest.append q)

@[simp] theorem tokens_append (p q : Phrase) : (p.append q).tokens = p.tokens ++ q.tokens := by
  induction p with
  | done => rfl
  | move first rest ih => simp [append, tokens, ih]
  | group content count rest _ ih => simp [append, tokens, ih]

@[simp] theorem moves_append (p q : Phrase) : (p.append q).moves = p.moves ++ q.moves := by
  induction p with
  | done => rfl
  | move first rest ih => simp [append, moves, ih]
  | group content count rest _ ih => simp [append, moves, ih]

/-- A phrase as a text. There can be any blanks before and behind each move, each group
and each parenthesis, but no fewer than `apart` between two neighbours in a row, and no
fewer than `lead` before the first of them. There are none between a group and its count. -/
inductive Written (apart : Nat) : Nat → Phrase → List Char → Prop
  | done {lead : Nat} {blanks : List Char} :
      (∀ c ∈ blanks, isBlank c = true) → Written apart lead done blanks
  | move {lead : Nat} {blanks cs : List Char} {first : MoveText} {rest : Phrase} :
      (∀ c ∈ blanks, isBlank c = true) → lead ≤ blanks.length → Written apart apart rest cs →
      Written apart lead (move first rest) (blanks ++ (first.text.toList ++ cs))
  | group {lead : Nat} {blanks inner cs : List Char} {content rest : Phrase}
      {count : Option RepeatCount} :
      (∀ c ∈ blanks, isBlank c = true) → lead ≤ blanks.length → Written apart 0 content inner →
      Written apart apart rest cs →
      Written apart lead (group content count rest)
        (blanks ++ '(' :: (inner ++ ')' :: (RepeatCount.chars count ++ cs)))

/-! ## From phrases to words -/

theorem ends_of_blanks {blanks tail : List Char} (h : ∀ c ∈ blanks, isBlank c = true)
    (pos : 1 ≤ blanks.length) : Ends (blanks ++ tail) := by
  cases blanks with
  | nil => cases pos
  | cons c rest => exact ends_cons (isBreak_of_isBlank (h c List.mem_cons_self)) _

/-- What stands apart from what is before it ends the word there. -/
theorem Written.ends {apart lead : Nat} {p : Phrase} {cs tail : List Char}
    (h : Written apart lead p cs) (pos : 1 ≤ lead) (ends : Ends tail) : Ends (cs ++ tail) := by
  cases h with
  | done hb =>
    cases cs with
    | nil => exact ends
    | cons c rest => exact ends_of_blanks hb (Nat.succ_le_succ (Nat.zero_le _))
  | move hb le hrest =>
    rw [List.append_assoc]
    exact ends_of_blanks hb (Nat.le_trans pos le)
  | group hb le hinner hrest =>
    rw [List.append_assoc]
    exact ends_of_blanks hb (Nat.le_trans pos le)

/-- The words of a phrase are found where its neighbours are kept apart. By induction on
the phrase, before any text that ends a word: inside a group that is its parenthesis. -/
theorem scan_of_written {lead : Nat} {p : Phrase} {cs tail : List Char}
    (h : Written 1 lead p cs) (ends : Ends tail) :
    Token.scan (cs ++ tail) = (Token.scan tail).map (p.tokens ++ ·) := by
  induction h generalizing tail with
  | done hb =>
    rw [Token.scan_blanks hb]
    cases Token.scan tail <;> rfl
  | @move _ blanks cs first rest hb le hrest ih =>
    rw [List.append_assoc, List.append_assoc, Token.scan_blanks hb,
      Token.scan_word first.ofChars?_text (hrest.ends (Nat.le_refl 1) ends), ih ends]
    cases Token.scan tail <;> rfl
  | @group _ blanks inner cs content rest count hb le hinner hrest ihcontent ihrest =>
    have closed : Ends (')' :: (RepeatCount.chars count ++ (cs ++ tail))) := ends_cons rfl _
    rw [List.append_assoc, List.cons_append, List.append_assoc, List.cons_append,
      List.append_assoc, Token.scan_blanks hb, Token.scan_opening, ihcontent closed,
      Token.scan_closing (RepeatCount.isDigit_of_mem_chars count)
        (hrest.ends (Nat.le_refl 1) ends), ihrest ends]
    cases Token.scan tail with
    | error flaw => rfl
    | ok more => simp [Except.map, tokens]

/-! ## From words to phrases -/

theorem Written.append_blanks {apart lead : Nat} {p : Phrase} {cs blanks : List Char}
    (h : Written apart lead p cs) (hb : ∀ c ∈ blanks, isBlank c = true) :
    Written apart lead p (cs ++ blanks) := by
  induction h with
  | done before => exact .done (List.forall_mem_append.2 ⟨before, hb⟩)
  | move before le _ ih =>
    rw [List.append_assoc, List.append_assoc]
    exact .move before le ih
  | group before le hinner _ _ ih =>
    rw [List.append_assoc, List.cons_append, List.append_assoc, List.cons_append,
      List.append_assoc]
    exact .group before le hinner ih

theorem isBlank_of_spread_nil {cs : List Char} (h : Token.Spread [] cs) :
    ∀ c ∈ cs, isBlank c = true := by
  generalize none : ([] : List Token) = tokens at h
  induction h with
  | nil => exact List.forall_mem_nil _
  | blank hc _ ih => exact List.forall_mem_cons.2 ⟨hc, ih none⟩
  | word => cases none

theorem exists_of_spread_cons {token : Token} {tokens : List Token} {cs : List Char}
    (h : Token.Spread (token :: tokens) cs) :
    ∃ blanks rest, (∀ c ∈ blanks, isBlank c = true) ∧ cs = blanks ++ (token.chars ++ rest) ∧
      Token.Spread tokens rest := by
  generalize all : token :: tokens = words at h
  induction h with
  | nil => cases all
  | @blank _ _ c hc _ ih =>
    obtain ⟨blanks, rest, hb, rfl, spread⟩ := ih all
    exact ⟨c :: blanks, rest, List.forall_mem_cons.2 ⟨hc, hb⟩, rfl, spread⟩
  | @word _ cs _ spread =>
    cases all
    exact ⟨[], cs, List.forall_mem_nil _, rfl, spread⟩

/-- Words that are those of a phrase are the phrase as a text. -/
theorem exists_written_of_spread {p : Phrase} {more : List Token} {cs : List Char}
    (h : Token.Spread (p.tokens ++ more) cs) :
    ∃ this rest, cs = this ++ rest ∧ Written 0 0 p this ∧ Token.Spread more rest := by
  induction p generalizing more cs with
  | done => exact ⟨[], cs, rfl, .done (List.forall_mem_nil _), h⟩
  | move first rest ih =>
    obtain ⟨blanks, behind, hb, rfl, spread⟩ := exists_of_spread_cons h
    obtain ⟨this, behind, rfl, written, spread⟩ := ih spread
    refine ⟨blanks ++ (first.text.toList ++ this), behind, ?_, .move hb (Nat.zero_le _) written,
      spread⟩
    simp [Token.chars]
  | group content count rest ihcontent ihrest =>
    rw [tokens, List.cons_append, List.append_assoc, List.cons_append] at h
    obtain ⟨blanks, behind, hb, rfl, opened⟩ := exists_of_spread_cons h
    obtain ⟨inner, behind, rfl, hinner, closing⟩ := ihcontent opened
    obtain ⟨before, behind, hbefore, rfl, closed⟩ := exists_of_spread_cons closing
    obtain ⟨this, behind, rfl, written, spread⟩ := ihrest closed
    refine ⟨_, behind, ?_,
      .group hb (Nat.zero_le _) (hinner.append_blanks hbefore) written, spread⟩
    simp [Token.chars]

end Phrase

end Twisty
