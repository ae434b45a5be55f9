import Twisty.Notation.Fault

/-! Why a cube cannot be made, or cannot be turned. -/

namespace Twisty

/-- A size or a choice of colors that no cube has. -/
inductive SetupFault
  | tooSmall (size : Nat)
  | colorCount (count : Nat)
  | repeatedColor (color : Char)
deriving DecidableEq

inductive CubeError
  | layers (count size : Nat)
  | setup (fault : SetupFault)
  | parse (error : ParseError)
deriving DecidableEq

def SetupFault.message : SetupFault → String
  | tooSmall size => "Cube size must be at least 2, got " ++ toString size
  | colorCount count =>
    "There must be exactly 6 colors for the cube faces, got " ++ toString count
  | repeatedColor color =>
    "Colors for the cube faces must be unique, `" ++ String.singleton color ++ "` is repeated"

def CubeError.message : CubeError → String
  | layers count size =>
    "Layer count must be at least 1 and less than the cube size " ++ toString size ++
      ", got " ++ toString count
  | setup fault => "Invalid cube configuration: " ++ fault.message
  | parse error => error.message

end Twisty
