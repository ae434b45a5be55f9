import Twisty.Proofs.Expansion

/-! Moves as algorithms. Moves are read in two ways, alone and as words of an algorithm. What
is a move alone is an algorithm of this move, and where there is nothing around the one move
of an algorithm, its text is the move's. -/

namespace Twisty

open Text

namespace Token

/-- If no blanks are passed over, the words are the text. -/
theorem eq_flatMap_of_spread {tokens : List Token} {cs : List Char}
    (h : Spread tokens cs) (solid : ∀ c ∈ cs, isBlank c = false) : cs = tokens.flatMap chars := by
  induction h with
  | nil => rfl
  | blank blank _ _ =>
    rw [solid _ List.mem_cons_self] at blank
    cases blank
  | word token _ ih =>
    have behind := ih fun c hc => solid c (List.mem_append_right _ hc)
    rw [List.flatMap_cons, ← behind]

theorem not_isBreak_of_mem_word {word : List Char} {m : Move}
    (reads : Move.ofChars? word = some m) : ∀ c ∈ word, isBreak c = false := by
  have whole := splitWord_append_of_endsBefore reads (m.endsBefore_of_ends ends_nil)
  have plain := not_isBreak_of_mem_splitWord (word ++ [])
  rwa [whole] at plain

end Token

namespace Phrase

/-- Without groups a phrase is moves in a row. -/
theorem exists_moveTexts {p : Phrase} (flat : .opening ∉ p.tokens) :
    ∃ row : List MoveText, p.tokens = row.map (fun m => .move m.text.toList) ∧
      p.moves = row.map MoveText.move := by
  induction p with
  | done => exact ⟨[], rfl, rfl⟩
  | move first rest ih =>
    obtain ⟨row, words, moves⟩ := ih fun h => flat (List.mem_cons_of_mem _ h)
    exact ⟨first :: row, by rw [tokens, words]; rfl, by rw [Phrase.moves, moves]; rfl⟩
  | group content count rest _ _ => exact absurd List.mem_cons_self flat

end Phrase

namespace Algorithm

theorem ofChars_word {word : List Char} {m : Move} (reads : Move.ofChars? word = some m) :
    ofChars word = .ok [m] := by
  have scanned := Token.scan_word reads ends_nil
  rw [List.append_nil, Token.scan_nil] at scanned
  have taken : Pending.empty.take (.move word) = .ok (Pending.empty.push m) :=
    Pending.take_move_eq_ok_iff.2 ⟨m, reads, rfl⟩
  exact ofChars_eq_ok_iff.2 ⟨_, _, scanned, Pending.takeAll_of_take taken [], rfl⟩

/-- What is read of a text that has no blanks and no groups are the moves that it is put
together from. -/
theorem exists_moveTexts_of_ofChars {cs : List Char} {a : Algorithm}
    (plain : ∀ c ∈ cs, isBreak c = false) (h : ofChars cs = .ok a) :
    ∃ row : List MoveText, cs = row.flatMap (fun m => m.text.toList) ∧
      a = row.map MoveText.move := by
  obtain ⟨p, scanned, rfl⟩ := exists_phrase_of_ofChars h
  have solid : ∀ c ∈ cs, isBlank c = false := fun c hc => (isBreak_eq_false_iff.1 (plain c hc)).1
  have whole := Token.eq_flatMap_of_spread (Token.spread_of_scan scanned) solid
  have flat : Token.opening ∉ p.tokens := by
    intro opens
    have parenthesis : '(' ∈ cs := by
      rw [whole]
      exact List.mem_flatMap_of_mem opens (List.mem_singleton_self _)
    cases plain _ parenthesis
  obtain ⟨row, words, moves⟩ := Phrase.exists_moveTexts flat
  refine ⟨row, ?_, moves⟩
  rw [whole, words, List.flatMap_map]
  rfl

/-- To be read as a move is to be read as an algorithm of this one move, without any blanks
and parentheses, which an algorithm could have around it. -/
theorem parse_singleton_iff (text : String) (m : Move) :
    Move.parse text = .ok m ↔
      parse text = .ok [m] ∧ ∀ c ∈ text.toList, isBlank c = false ∧ c ≠ '(' ∧ c ≠ ')' := by
  simp only [Move.parse_eq_ok_iff, parse_eq_ok_iff, ← isBreak_eq_false_iff]
  constructor
  · intro reads
    exact ⟨ofChars_word reads, Token.not_isBreak_of_mem_word reads⟩
  · rintro ⟨h, plain⟩
    obtain ⟨row, whole, moves⟩ := exists_moveTexts_of_ofChars plain h
    obtain ⟨only, rfl, rfl⟩ := List.map_eq_singleton_iff.1 moves.symm
    rw [whole, List.flatMap_singleton]
    exact only.ofChars?_text

/-- A blank is nothing to an algorithm. -/
example : parse " (R)1" = .ok [.single (.outer .r) .clockwise] ∧
    Move.parse " (R)1" = .error (.move " (R)1") := by
  decide +kernel

end Algorithm

end Twisty
