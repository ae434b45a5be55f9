import Twisty.Move.Basic
import Twisty.Text.Split

/-! Reading one move: digits, a letter, the mark `w` and the amount's suffix, in this
order, where all but the letter may be missing. Digits need the mark, and the mark
needs an outer letter. -/

namespace Twisty.Move

open Text

/-- How many layers the digits before a letter and the mark behind it ask for. -/
def readWidth? (digits : List Char) (marked : Bool) : Option Nat :=
  if marked then
    if digits = [] then some 2 else (Count.ofDigits? digits).filter (2 ≤ ·)
  else if digits = [] then some 1
  else none

def ofChars? (word : List Char) : Option Move :=
  match afterDigits word with
  | [] => none
  | c :: rest => do
    let parts := splitFirst (· == 'w') rest
    let letter ← Letter.ofChar? c
    let amount ← Amount.ofSuffix? parts.2
    let width ← readWidth? (leadingDigits word) (parts.1 != [])
    new? width letter amount

def parse (text : String) : Except ParseError Move :=
  match ofChars? text.toList with
  | some m => .ok m
  | none => .error (.move text)

end Twisty.Move
