import Twisty.Layout.Corner
import Twisty.Text.Quoted

/-! Why a layout of stickers belongs to no cube. -/

namespace Twisty

inductive LayoutFault
  | tooSmall (size : Nat)
  | missingFace (face : Face)
  | misshapen (face : Face) (size : Nat)
  | repeatedCenter (color : Char)
  | colorCount (count : Nat)
  | unbalanced (color : Char) (count expected : Nat)
  | noOpposite (color : Char)
  | impossibleCorner (slot : Corner Face) (shown : Corner Char)
  | repeatedPiece (piece : Corner Char)
  | mismatchedCenters (color facing : Char)
deriving DecidableEq

namespace LayoutFault

/-- A color in text. -/
def color (c : Char) : String := "`" ++ String.singleton c ++ "`"

def colors (c : Corner Char) : String := String.ofList (Text.quotedList c.toList)

def message : LayoutFault → String
  | tooSmall size => "Cube size must be at least 2, got " ++ toString size
  | missingFace face => "Face " ++ String.singleton face.letter ++ " is missing"
  | misshapen face size =>
    "Face " ++ String.singleton face.letter ++ " is not a " ++
      toString size ++ "x" ++ toString size ++ " grid"
  | repeatedCenter c => "Center color " ++ color c ++ " appears on more than one face"
  | colorCount count => "Expected 6 colors, found " ++ toString count
  | unbalanced c count expected =>
    "Color " ++ color c ++ " appears " ++ toString count ++ " times instead of " ++
      toString expected
  | noOpposite c => "Color " ++ color c ++ " has no single opposite color"
  | impossibleCorner slot shown =>
    "The corner at " ++ slot.name ++ " shows " ++ colors shown ++
      ", which no corner piece has"
  | repeatedPiece piece => "The corner piece " ++ colors piece ++ " appears more than once"
  | mismatchedCenters c facing =>
    "Opposite centers " ++ color c ++ " and " ++ color facing ++ " are not opposite colors"

end LayoutFault

end Twisty
