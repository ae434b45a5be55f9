/-! How far a move turns: a quarter turn either way, or half a turn. -/

namespace Twisty

inductive Amount
  | clockwise
  | counterclockwise
  | half
deriving DecidableEq

namespace Amount

def all : List Amount := [clockwise, counterclockwise, half]

theorem mem_all (amount : Amount) : amount ∈ all := by cases amount <;> decide

def inverse : Amount → Amount
  | clockwise => counterclockwise
  | counterclockwise => clockwise
  | half => half

@[simp] theorem inverse_inverse (amount : Amount) : amount.inverse.inverse = amount := by
  cases amount <;> rfl

/-- How many clockwise quarter turns it takes. -/
def quarterTurns : Amount → Nat
  | clockwise => 1
  | half => 2
  | counterclockwise => 3

theorem quarterTurns_add_inverse (amount : Amount) :
    (amount.quarterTurns + amount.inverse.quarterTurns) % 4 = 0 := by
  cases amount <;> rfl

/-- What is written behind a move's letter. -/
def suffix : Amount → List Char
  | clockwise => []
  | counterclockwise => ['\'']
  | half => ['2']

def ofSuffix? : List Char → Option Amount
  | [] => some clockwise
  | ['\''] => some counterclockwise
  | ['2'] => some half
  | _ => none

theorem ofSuffix?_suffix (amount : Amount) : ofSuffix? amount.suffix = some amount := by
  cases amount <;> rfl

theorem ofSuffix?_eq_some_iff {cs : List Char} {amount : Amount} :
    ofSuffix? cs = some amount ↔ amount.suffix = cs := by
  constructor
  · intro h
    unfold ofSuffix? at h
    split at h <;> cases h <;> rfl
  · rintro rfl; exact ofSuffix?_suffix amount

/-- Does a quarter turn as often as the amount says. -/
def act {α : Type} (amount : Amount) (quarter : α → α) (x : α) : α :=
  match amount with
  | clockwise => quarter x
  | half => quarter (quarter x)
  | counterclockwise => quarter (quarter (quarter x))

/-- A quarter turn that comes round after four is undone by the inverse amount. -/
theorem act_inverse_act {α : Type} {quarter : α → α}
    (round : ∀ x, quarter (quarter (quarter (quarter x))) = x) (amount : Amount) (x : α) :
    amount.inverse.act quarter (amount.act quarter x) = x := by
  cases amount <;> exact round x

end Amount

end Twisty
