/-! Why a text is not a move or not an algorithm. -/

namespace Twisty

/-- What is wrong with the groups of an algorithm. A repeat count is kept as it
is written. -/
inductive GroupingFault
  | strayClose
  | unclosedOpen
  | badCount (text : String)
  | tooManyMoves
deriving DecidableEq

/-- A word that is no move, or a whole text whose groups are at fault. -/
inductive ParseError
  | move (text : String)
  | grouping (text : String) (fault : GroupingFault)
deriving DecidableEq

def GroupingFault.message : GroupingFault → String
  | strayClose => "Mismatched parentheses: a `)` has no matching `(`"
  | unclosedOpen => "Unmatched `(` in algorithm string"
  | badCount text => "Invalid multiplier `" ++ text ++ "`, expected a positive integer"
  | tooManyMoves => "Repeated groups expand to more moves than fit in memory"

def ParseError.message : ParseError → String
  | move text => "Invalid move: " ++ text
  | grouping text fault =>
    "Invalid algorithm: " ++ text ++ "\nwith reason: " ++ fault.message

/-- A fault found inside a text, before the text itself is named. -/
inductive Flaw
  | move (word : List Char)
  | grouping (fault : GroupingFault)
deriving DecidableEq

/-- A bad word speaks for itself; a fault of grouping is reported with the whole
text. -/
def Flaw.within (text : String) : Flaw → ParseError
  | move word => .move (String.ofList word)
  | grouping fault => .grouping text fault

end Twisty
