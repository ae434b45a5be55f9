import Twisty.Proofs.Expansion

/-! Parentheses. One row of moves is held for each open group, so there are as many as there
are parentheses to be closed. What is wrong with the groups of a text, if anything is, can
therefore be seen by counting its parentheses from the start on. -/

namespace Twisty

open Text

/-! ## Counting -/

/-- From the start on, somewhere more groups are closed than were opened or open before. -/
def Overcloses (opened : Nat) (cs : List Char) : Prop :=
  ∃ start, start <+: cs ∧ opened + start.count '(' < start.count ')'

section

variable {opened : Nat} {c : Char} {cs word : List Char}

theorem not_overcloses_nil : ¬ Overcloses opened [] := by
  rintro ⟨start, begins, more⟩
  rw [List.prefix_nil.1 begins] at more
  exact Nat.not_lt_zero _ more

theorem overcloses_cons_iff : Overcloses opened (c :: cs) ↔
    ∃ start, start <+: cs ∧ opened + (c :: start).count '(' < (c :: start).count ')' := by
  constructor
  · rintro ⟨start, begins, more⟩
    cases start with
    | nil => exact absurd more (Nat.not_lt_zero _)
    | cons d start =>
      obtain ⟨rfl, later⟩ := List.cons_prefix_cons.1 begins
      exact ⟨start, later, more⟩
  · rintro ⟨start, begins, more⟩
    exact ⟨c :: start, List.cons_prefix_cons.2 ⟨rfl, begins⟩, more⟩

theorem overcloses_opening : Overcloses opened ('(' :: cs) ↔ Overcloses (opened + 1) cs := by
  rw [overcloses_cons_iff]
  simp only [List.count_cons_self, List.count_cons_of_ne (by decide : '(' ≠ ')'), Overcloses,
    Nat.add_assoc, Nat.add_comm 1]

theorem overcloses_closing_zero : Overcloses 0 (')' :: cs) :=
  ⟨[')'], List.cons_prefix_cons.2 ⟨rfl, List.nil_prefix⟩, by decide⟩

theorem overcloses_closing_succ :
    Overcloses (opened + 1) (')' :: cs) ↔ Overcloses opened cs := by
  rw [overcloses_cons_iff]
  simp only [List.count_cons_self, List.count_cons_of_ne (by decide : ')' ≠ '('), Overcloses,
    Nat.add_right_comm opened 1, Nat.add_lt_add_iff_right]

theorem count_of_notBreak (plain : ∀ c ∈ word, isBreak c = false) :
    word.count '(' = 0 ∧ word.count ')' = 0 := by
  refine ⟨List.count_eq_zero.2 fun h => ?_, List.count_eq_zero.2 fun h => ?_⟩
  · exact absurd (plain _ h) (by decide)
  · exact absurd (plain _ h) (by decide)

theorem overcloses_cons_of_ne (opens : c ≠ '(') (closes : c ≠ ')') :
    Overcloses opened (c :: cs) ↔ Overcloses opened cs := by
  rw [overcloses_cons_iff]
  simp only [List.count_cons_of_ne opens, List.count_cons_of_ne closes, Overcloses]

theorem overcloses_append (plain : ∀ c ∈ word, isBreak c = false) :
    Overcloses opened (word ++ cs) ↔ Overcloses opened cs := by
  induction word with
  | nil => rfl
  | cons c rest ih =>
    obtain ⟨hc, hrest⟩ := List.forall_mem_cons.1 plain
    have opens : c ≠ '(' := by rintro rfl; exact absurd hc (by decide)
    have closes : c ≠ ')' := by rintro rfl; exact absurd hc (by decide)
    rw [List.cons_append, overcloses_cons_of_ne opens closes, ih hrest]

theorem overcloses_zero_iff :
    Overcloses 0 cs ↔ ∃ start, start <+: cs ∧ start.count '(' < start.count ')' := by
  simp only [Overcloses, Nat.zero_add]

theorem not_overcloses_zero_iff :
    ¬ Overcloses 0 cs ↔ ∀ start, start <+: cs → start.count ')' ≤ start.count '(' := by
  simp only [overcloses_zero_iff, not_exists, not_and, Nat.not_lt]

theorem ne_of_isBlank (blank : isBlank c = true) : c ≠ '(' ∧ c ≠ ')' := by
  constructor <;> rintro rfl <;> exact absurd blank (by decide)

end

/-- A fault that is not one of parentheses: a word that is no move, a count that is none, or
more moves than can be held. -/
def Flaw.Elsewhere : Flaw → Prop
  | .move _ => True
  | .grouping (.badCount _) => True
  | .grouping .tooManyMoves => True
  | .grouping .strayClose => False
  | .grouping .unclosedOpen => False

namespace Pending

variable {p q : Pending} {token : Token} {tokens : List Token} {cs : List Char} {flaw : Flaw}

/-! ## One word -/

/-- All that a word can do to the open groups. -/
theorem length_outer_of_take (taken : p.take token = .ok q) :
    match token with
    | .move _ => q.outer.length = p.outer.length
    | .opening => q.outer.length = p.outer.length + 1
    | .closing _ => p.outer.length = q.outer.length + 1 := by
  cases token with
  | move word =>
    obtain ⟨m, -, rfl⟩ := take_move_eq_ok_iff.1 taken
    rfl
  | opening =>
    cases taken
    rfl
  | closing count =>
    obtain ⟨current, outer⟩ := p
    obtain ⟨-, before, rest, -, rfl, rfl⟩ :=
      exists_of_closeGroup (take_closing_eq_ok_iff.1 taken)
    rfl

theorem eq_badCount_of_readCount {digits : List Char} {fault : GroupingFault}
    (refused : readCount digits = .error fault) : fault = .badCount (String.ofList digits) := by
  unfold readCount at refused
  split at refused
  · cases refused
  · split at refused
    · cases refused
    · cases refused
      rfl

theorem closeGroup_error_cases {digits : List Char} {fault : GroupingFault}
    (refused : p.closeGroup digits = .error fault) :
    readCount digits = .error fault ∨ fault = .tooManyMoves ∨
    (fault = .strayClose ∧ p.outer = []) := by
  unfold closeGroup at refused
  split at refused
  · rename_i counted
    cases refused
    exact Or.inl counted
  split at refused
  · rename_i closed
    cases refused
    exact Or.inr (Or.inr ⟨rfl, closed⟩)
  · dsimp only at refused
    split at refused
    · cases refused
    · cases refused
      exact Or.inr (Or.inl rfl)

/-- The only parenthesis that is refused as such is one that closes no group. -/
theorem take_error_cases (refused : p.take token = .error flaw) :
    flaw.Elsewhere ∨
    (flaw = .grouping .strayClose ∧ (∃ count, token = .closing count) ∧ p.outer = []) := by
  cases token with
  | move word =>
    obtain ⟨-, rfl⟩ := take_move_eq_error_iff.1 refused
    exact Or.inl trivial
  | opening => cases refused
  | closing count =>
    obtain ⟨fault, closed, rfl⟩ := take_closing_eq_error_iff.1 refused
    rcases closeGroup_error_cases closed with counted | rfl | ⟨rfl, none⟩
    · rw [eq_badCount_of_readCount counted]
      exact Or.inl trivial
    · exact Or.inl trivial
    · exact Or.inr ⟨rfl, ⟨count, rfl⟩, none⟩

/-- A word that is taken changes the number of open groups by its parentheses. -/
theorem count_of_take (plain : token.IsPlain) (taken : p.take token = .ok q) :
    q.outer.length + token.chars.count ')' = p.outer.length + token.chars.count '(' := by
  have depth := length_outer_of_take taken
  cases token with
  | move word =>
    obtain ⟨opens, closes⟩ := count_of_notBreak plain
    rw [Token.chars, opens, closes]
    exact depth
  | opening => exact depth
  | closing count =>
    obtain ⟨opens, closes⟩ := count_of_notBreak plain
    rw [Token.chars, List.count_cons_self, closes, List.count_cons_of_ne (by decide), opens]
    exact depth.symm

theorem overcloses_of_take (plain : token.IsPlain) (taken : p.take token = .ok q) :
    Overcloses p.outer.length (token.chars ++ cs) ↔ Overcloses q.outer.length cs := by
  have depth := length_outer_of_take taken
  cases token with
  | move word =>
    rw [Token.chars, overcloses_append plain, ← depth]
  | opening =>
    rw [Token.chars, List.singleton_append, overcloses_opening, ← depth]
  | closing count =>
    rw [Token.chars, List.cons_append, depth, overcloses_closing_succ, overcloses_append plain]

/-! ## All words -/

/-- By induction on the text. What is left to do is as many parentheses as there are open
groups. -/
theorem count_of_takeAll (spread : Token.Spread tokens cs)
    (plain : ∀ token ∈ tokens, token.IsPlain) (taken : p.takeAll tokens = .ok q) :
    ¬ Overcloses p.outer.length cs ∧
      q.outer.length + cs.count ')' = p.outer.length + cs.count '(' := by
  induction spread generalizing p with
  | nil =>
    cases taken
    exact ⟨not_overcloses_nil, rfl⟩
  | blank blank _ ih =>
    obtain ⟨opens, closes⟩ := ne_of_isBlank blank
    rw [overcloses_cons_of_ne opens closes, List.count_cons_of_ne opens,
      List.count_cons_of_ne closes]
    exact ih plain taken
  | word token _ ih =>
    obtain ⟨first, later⟩ := List.forall_mem_cons.1 plain
    obtain ⟨next, one, others⟩ := takeAll_cons_eq_ok_iff.1 taken
    obtain ⟨never, count⟩ := ih later others
    have here := count_of_take first one
    rw [overcloses_of_take first one, List.count_append, List.count_append]
    exact ⟨never, by omega⟩

theorem overcloses_of_takeAll (spread : Token.Spread tokens cs)
    (plain : ∀ token ∈ tokens, token.IsPlain)
    (stray : p.takeAll tokens = .error (.grouping .strayClose)) :
    Overcloses p.outer.length cs := by
  induction spread generalizing p with
  | nil => cases stray
  | blank blank _ ih =>
    obtain ⟨opens, closes⟩ := ne_of_isBlank blank
    rw [overcloses_cons_of_ne opens closes]
    exact ih plain stray
  | word token _ ih =>
    obtain ⟨first, later⟩ := List.forall_mem_cons.1 plain
    rcases takeAll_cons_eq_error_iff.1 stray with refused | ⟨next, one, others⟩
    · rcases take_error_cases refused with elsewhere | ⟨-, ⟨count, rfl⟩, none⟩
      · exact elsewhere.elim
      · rw [none]
        exact overcloses_closing_zero
    · rw [overcloses_of_take first one]
      exact ih later others

theorem exists_take_of_takeAll (refused : p.takeAll tokens = .error flaw) :
    ∃ q, ∃ token ∈ tokens, take q token = .error flaw := by
  induction tokens generalizing p with
  | nil => cases refused
  | cons token rest ih =>
    rcases takeAll_cons_eq_error_iff.1 refused with here | ⟨next, -, others⟩
    · exact ⟨p, token, List.mem_cons_self, here⟩
    · obtain ⟨q, other, later, fails⟩ := ih others
      exact ⟨q, other, List.mem_cons_of_mem _ later, fails⟩

end Pending

/-! ## Whole texts -/

namespace Token

theorem elsewhere_of_next {c : Char} {rest : List Char} {flaw : Flaw}
    (h : next c rest = .error flaw) : flaw.Elsewhere := by
  rcases next_error_cases h with ⟨-, rfl⟩ | ⟨suffix, after, -, -, -, rfl⟩ <;> exact trivial

theorem elsewhere_of_scan {cs : List Char} {flaw : Flaw} (h : scan cs = .error flaw) :
    flaw.Elsewhere := by
  obtain ⟨c, rest, -, fails⟩ := exists_next_of_scan h
  exact elsewhere_of_next fails

end Token

namespace Algorithm

variable {text : String}

theorem parse_eq_grouping_iff {whole : String} {fault : GroupingFault} :
    parse text = .error (.grouping whole fault) ↔
      ofChars text.toList = .error (.grouping fault) ∧ whole = text := by
  rw [parse]
  cases ofChars text.toList with
  | ok a => simp [Except.mapError]
  | error flaw =>
    cases flaw with
    | move word => simp [Except.mapError, Flaw.within]
    | grouping other => simp [Except.mapError, Flaw.within, and_comm, eq_comm]

/-- What the parentheses of a text have to do with how its reading ends. -/
inductive Verdict (cs : List Char) : Except Flaw Algorithm → Prop
  | elsewhere {flaw : Flaw} : flaw.Elsewhere → Verdict cs (.error flaw)
  | strayClose : Overcloses 0 cs → Verdict cs (.error (.grouping .strayClose))
  | unclosedOpen : ¬ Overcloses 0 cs → cs.count ')' < cs.count '(' →
      Verdict cs (.error (.grouping .unclosedOpen))
  | read (a : Algorithm) : ¬ Overcloses 0 cs → cs.count '(' = cs.count ')' → Verdict cs (.ok a)

theorem verdict_finish {cs : List Char} {pending : Pending} (never : ¬ Overcloses 0 cs)
    (count : pending.outer.length + cs.count ')' = cs.count '(') :
    Verdict cs pending.finish := by
  unfold Pending.finish
  split
  · rename_i closed
    rw [closed, List.length_nil, Nat.zero_add] at count
    exact .read _ never count.symm
  · rename_i left
    have some := List.length_pos_iff.2 left
    exact .unclosedOpen never (by omega)

theorem verdict_ofChars (cs : List Char) : Verdict cs (ofChars cs) := by
  rcases ofChars_cases cs with ⟨flaw, unscanned, fails⟩ |
    ⟨tokens, scanned, ⟨flaw, refused, fails⟩ | ⟨pending, taken, ends⟩⟩
  · rw [fails]
    exact .elsewhere (Token.elsewhere_of_scan unscanned)
  · rw [fails]
    obtain ⟨q, token, -, here⟩ := Pending.exists_take_of_takeAll refused
    rcases Pending.take_error_cases here with elsewhere | ⟨rfl, -, -⟩
    · exact .elsewhere elsewhere
    · exact .strayClose (Pending.overcloses_of_takeAll (Token.spread_of_scan scanned)
        (Token.isPlain_of_scan scanned) refused)
  · rw [ends]
    obtain ⟨never, count⟩ := Pending.count_of_takeAll (Token.spread_of_scan scanned)
      (Token.isPlain_of_scan scanned) taken
    exact verdict_finish never (count.trans (Nat.zero_add _))

/-- If there is no other fault, the first of these decides: somewhere more groups are closed
than were opened; in the end fewer are. The whole text is named then. A text that has
neither is read. -/
theorem parse_parentheses (moves : ∀ word, parse text ≠ .error (.move word))
    (counts : ∀ count, parse text ≠ .error (.grouping text (.badCount count)))
    (room : parse text ≠ .error (.grouping text .tooManyMoves)) :
    (parse text = .error (.grouping text .strayClose) ↔
      ∃ start, start <+: text.toList ∧ start.count '(' < start.count ')') ∧
    (parse text = .error (.grouping text .unclosedOpen) ↔
      (∀ start, start <+: text.toList → start.count ')' ≤ start.count '(') ∧
        text.toList.count ')' < text.toList.count '(') ∧
    ((∃ a, parse text = .ok a) ↔
      (∀ start, start <+: text.toList → start.count ')' ≤ start.count '(') ∧
        text.toList.count '(' = text.toList.count ')') ∧
    ∀ whole fault, parse text = .error (.grouping whole fault) → whole = text := by
  have sound : ∀ flaw : Flaw, flaw.Elsewhere → ofChars text.toList ≠ .error flaw := by
    intro flaw elsewhere h
    have fails : parse text = .error (flaw.within text) := by
      rw [parse, h]
      rfl
    cases flaw with
    | move word => exact moves _ fails
    | grouping fault =>
      cases fault with
      | badCount count => exact counts count fails
      | tooManyMoves => exact room fails
      | strayClose => exact elsewhere.elim
      | unclosedOpen => exact elsewhere.elim
  have verdict := verdict_ofChars text.toList
  simp only [← overcloses_zero_iff, ← not_overcloses_zero_iff, parse_eq_ok_iff,
    parse_eq_grouping_iff, and_true]
  generalize result : ofChars text.toList = outcome at verdict
  cases verdict with
  | elsewhere elsewhere => exact absurd result (sound _ elsewhere)
  | strayClose early => simp [early]
  | unclosedOpen never more => simp [never, more, Nat.ne_of_gt more]
  | read a never same => simp [never, same]

/-- There is one parenthesis of each kind, but the one that closes comes first. -/
theorem parse_parentheses_early :
    (∀ word, parse "(R))U(" ≠ .error (.move word)) ∧
    (∀ count, parse "(R))U(" ≠ .error (.grouping "(R))U(" (.badCount count))) ∧
    parse "(R))U(" ≠ .error (.grouping "(R))U(" .tooManyMoves) ∧
    "(R))U(".toList.count '(' = "(R))U(".toList.count ')' ∧
    parse "(R))U(" = .error (.grouping "(R))U(" .strayClose) := by
  have fails : ∀ error, parse "(R))U(" = .error error → error = .grouping "(R))U(" .strayClose := by
    have closed : parse "(R))U(" = .error (.grouping "(R))U(" .strayClose) := by decide +kernel
    intro error h
    exact Except.error.inj (h.symm.trans closed)
  have moves : ∀ word, parse "(R))U(" ≠ .error (.move word) :=
    fun word h => by cases fails _ h
  have counts : ∀ count, parse "(R))U(" ≠ .error (.grouping "(R))U(" (.badCount count)) :=
    fun count h => by cases fails _ h
  have room : parse "(R))U(" ≠ .error (.grouping "(R))U(" .tooManyMoves) :=
    fun h => by cases fails _ h
  obtain ⟨early, -⟩ := parse_parentheses moves counts room
  exact ⟨moves, counts, room, by decide, early.2 ⟨['(', 'R', ')', ')'], by decide, by decide⟩⟩

end Algorithm

end Twisty
