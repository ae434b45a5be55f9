/-! Numbers written in a base of up to sixteen, with digits in either case. An
underscore may stand between two digits and means nothing. -/

namespace Twisty.Text.Radix

/-- What a hexadecimal digit stands for. -/
def digitValue? (c : Char) : Option Nat :=
  if '0' ≤ c ∧ c ≤ '9' then some (c.toNat - '0'.toNat)
  else if 'a' ≤ c ∧ c ≤ 'f' then some (c.toNat - 'a'.toNat + 10)
  else if 'A' ≤ c ∧ c ≤ 'F' then some (c.toNat - 'A'.toNat + 10)
  else none

/-- What a digit of a base stands for. -/
def digit? (base : Nat) (c : Char) : Option Nat := (digitValue? c).filter (· < base)

/-- Appends digits to the number that stands before them. -/
def valueAfter? (base : Nat) (n : Nat) : List Char → Option Nat
  | [] => some n
  | c :: rest =>
    match digit? base c with
    | some d => valueAfter? base (base * n + d) rest
    | none => none

/-- The value of one or more digits. -/
def value? (base : Nat) (digits : List Char) : Option Nat :=
  if digits = [] then none else valueAfter? base 0 digits

/-- The digits alone, if every underscore stands between two of them. -/
def ungrouped? : List Char → Option (List Char)
  | [] => none
  | [c] => if c = '_' then none else some [c]
  | c :: '_' :: rest => if c = '_' then none else (ungrouped? rest).map (c :: ·)
  | c :: rest => if c = '_' then none else (ungrouped? rest).map (c :: ·)

def grouped? (base : Nat) (digits : List Char) : Option Nat := ungrouped? digits >>= value? base

end Twisty.Text.Radix
