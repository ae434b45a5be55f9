/-! Where random numbers come from. All that is asked of a source is that a number drawn
below a bound is below it. -/

namespace Twisty

/-- A state of the source gives one number after another. -/
class Source (G : Type) where
  seeded : UInt64 → G
  below : Nat → G → Nat × G
  below_lt {bound : Nat} (pos : 0 < bound) (g : G) : (below bound g).1 < bound

namespace Source

variable {G : Type} [Source G] {α : Type}

/-- One of the things in a list. -/
def pick (choices : List α) (pos : 0 < choices.length) (g : G) : α × G :=
  (choices.get ⟨(below choices.length g).1, below_lt pos g⟩, (below choices.length g).2)

theorem pick_mem (choices : List α) (pos : 0 < choices.length) (g : G) :
    (pick choices pos g).1 ∈ choices := List.get_mem _ _

end Source

end Twisty
