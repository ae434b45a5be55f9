import Twisty.Algorithm
import Twisty.Move.Reader
import Twisty.Notation.Token

/-! Reading an algorithm such as `B (R (U F2)3 R')2 F`. The words are taken one after
another; groups may nest to any depth, and one that closes is written out at once, as
often as its count says. -/

namespace Twisty

open Text

/-- The moves read so far, the latest first: those of the innermost open group, and
for each group around it those before the parenthesis that opened the next one. -/
structure Pending where
  current : List Move
  outer : List (List Move)
deriving DecidableEq

namespace Pending

def empty : Pending := ⟨[], []⟩

/-- The most moves and open parentheses that can be held at once: sixteen bytes each,
out of `2 ^ 63 - 1`. -/
def capacity : Nat := 576460752303423487

def push (p : Pending) (m : Move) : Pending := ⟨m :: p.current, p.outer⟩

def openGroup (p : Pending) : Pending := ⟨[], p.current :: p.outer⟩

/-- A group without a count is taken once. -/
def readCount (count : List Char) : Except GroupingFault Nat :=
  if count = [] then .ok 1
  else
    match (Count.ofDigits? count).filter (1 ≤ ·) with
    | some times => .ok times
    | none => .error (.badCount (String.ofList count))

/-- The moves and open parentheses that lie before an innermost group. -/
def held (before : List Move) (outer : List (List Move)) : Nat :=
  before.length + outer.flatten.length + outer.length

def closeGroup (p : Pending) (count : List Char) : Except GroupingFault Pending :=
  match readCount count with
  | .error fault => .error fault
  | .ok times =>
    match p.outer with
    | [] => .error .strayClose
    | before :: outer =>
      let total := p.current.length * times
      if total = 0 ∨ held before outer + total ≤ capacity then
        .ok ⟨Algorithm.copies times p.current ++ before, outer⟩
      else .error .tooManyMoves

def take (p : Pending) : Token → Except Flaw Pending
  | .move word =>
    match Move.ofChars? word with
    | some m => .ok (p.push m)
    | none => .error (.move word)
  | .opening => .ok p.openGroup
  | .closing count => (p.closeGroup count).mapError .grouping

def takeAll (p : Pending) : List Token → Except Flaw Pending
  | [] => .ok p
  | token :: rest =>
    match p.take token with
    | .error flaw => .error flaw
    | .ok p => p.takeAll rest

/-- At the end no group may be open. -/
def finish (p : Pending) : Except Flaw Algorithm :=
  if p.outer = [] then .ok p.current.reverse else .error (.grouping .unclosedOpen)

end Pending

namespace Algorithm

/-- Words are found before any of them is read, so a text with a bad character fails
for it even if an earlier word is no move. -/
def ofChars (cs : List Char) : Except Flaw Algorithm :=
  match Token.scan cs with
  | .error flaw => .error flaw
  | .ok tokens =>
    match Pending.empty.takeAll tokens with
    | .error flaw => .error flaw
    | .ok pending => pending.finish

def parse (text : String) : Except ParseError Algorithm :=
  (ofChars text.toList).mapError (Flaw.within text)

end Algorithm

end Twisty
