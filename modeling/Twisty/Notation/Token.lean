import Twisty.Notation.Fault
import Twisty.Text.Blank
import Twisty.Text.Split

/-! The words of a written algorithm: moves, parentheses that open a group, and
parentheses that close one together with the repeat count right behind them. Blanks
separate words; between two moves they can be left out, because a word takes all that
can belong to one move. -/

namespace Twisty

open Text

inductive Token
  | move (word : List Char)
  | opening
  | closing (count : List Char)
deriving DecidableEq

namespace Token

def chars : Token → List Char
  | move word => word
  | opening => ['(']
  | closing count => ')' :: count

/-! ## The word of a move -/

def isMark (c : Char) : Bool := c == 'w'

def isTurnSuffix (c : Char) : Bool := c == '2' || c == '\''

/-- Splits off what can belong to one move: digits, and behind them a letter with its
mark and suffix. -/
def splitWord (cs : List Char) : List Char × List Char :=
  match afterDigits cs with
  | [] => (leadingDigits cs, [])
  | c :: rest =>
    if c.isAlpha then
      let mark := splitFirst isMark rest
      let suffix := splitFirst isTurnSuffix mark.2
      (leadingDigits cs ++ c :: mark.1 ++ suffix.1, suffix.2)
    else (leadingDigits cs, c :: rest)

theorem splitWord_append (cs : List Char) : (splitWord cs).1 ++ (splitWord cs).2 = cs := by
  have h := leadingDigits_append cs
  unfold splitWord
  split
  · rename_i e; simpa [e] using h
  · rename_i c rest e
    rw [e] at h
    split
    · have hm := splitFirst_append isMark rest
      have hs := splitFirst_append isTurnSuffix (splitFirst isMark rest).2
      simp only [List.append_assoc, List.cons_append, hs, hm, h]
    · exact h

/-! ## One word after another -/

/-- Takes one word, or passes over one blank. A suffix of a turn cannot follow a
group. -/
def next (c : Char) (rest : List Char) : Except Flaw (Option Token × List Char) :=
  if isBlank c then .ok (none, rest)
  else if c = '(' then .ok (some opening, rest)
  else if c = ')' then
    match splitFirst (fun x => x == '\'' || x == 'w') (afterDigits rest) with
    | ([], after) => .ok (some (closing (leadingDigits rest)), after)
    | (suffix, _) =>
      .error (.grouping (.badCount (String.ofList (leadingDigits rest ++ suffix))))
  else
    match splitWord (c :: rest) with
    | ([], _) => .error (.move [c])
    | (word, after) => .ok (some (move word), after)

theorem length_le_of_next {c : Char} {rest after : List Char} {token : Option Token}
    (h : next c rest = .ok (token, after)) : after.length ≤ rest.length := by
  unfold next at h
  split at h
  · cases h; exact Nat.le_refl _
  split at h
  · cases h; exact Nat.le_refl _
  split at h
  · split at h
    · rename_i e
      cases h
      have hs := length_splitFirst_le (fun x => x == '\'' || x == 'w') (afterDigits rest)
      rw [e] at hs
      exact Nat.le_trans hs (length_afterDigits_le rest)
    · cases h
  · split at h
    · cases h
    · rename_i word tail hne e
      cases h
      have hl := congrArg List.length (splitWord_append (c :: rest))
      rw [e, List.length_append, List.length_cons] at hl
      have : word.length ≠ 0 := fun h0 => hne (List.length_eq_zero_iff.1 h0)
      simp only at hl
      omega

/-- All words of a text. -/
def scan (cs : List Char) : Except Flaw (List Token) :=
  match cs with
  | [] => .ok []
  | c :: rest =>
    match _h : next c rest with
    | .error flaw => .error flaw
    | .ok (token, after) => (scan after).map (token.toList ++ ·)
termination_by cs.length
decreasing_by
  have := length_le_of_next _h
  simp only [List.length_cons]
  omega

end Token

end Twisty
