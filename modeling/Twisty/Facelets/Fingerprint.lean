import Twisty.Facelets.Basic

/-! A 64-bit fingerprint of a cube, by which states are told apart. Words are mixed in
one after another: the number of faces, and for each face its size, the number of its
stickers and the code points of the stickers. Equal states have equal fingerprints. -/

namespace Twisty.Facelets

variable {n : Nat}

/-- Turns the hash left by five bits, crosses the word in and spreads the result. -/
def mix (hash word : UInt64) : UInt64 :=
  (((hash <<< 5) ||| (hash >>> 59)) ^^^ word) * 0x517cc1b727220a95

/-- The words that a grid contributes. -/
def gridWords (g : Grid n) : List UInt64 :=
  UInt64.ofNat n :: UInt64.ofNat (n * n) :: g.stickers.map fun c => c.val.toUInt64

def words (s : Facelets n) : List UInt64 := 6 :: s.toList.flatMap gridWords

def fingerprint (s : Facelets n) : UInt64 := s.words.foldl mix 0

instance : Hashable (Facelets n) := ⟨fingerprint⟩

end Twisty.Facelets
