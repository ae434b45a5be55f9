/-! The lines of a text. A line ends with a newline or with a carriage return and a
newline; a carriage return that stands alone belongs to its line. -/

namespace Twisty.Text

/-- Puts a character in front of the first of some lines. -/
def consLine (c : Char) : List (List Char) → List (List Char)
  | [] => [[c]]
  | line :: rest => (c :: line) :: rest

def lines : List Char → List (List Char)
  | [] => [[]]
  | '\n' :: rest => [] :: lines rest
  | '\r' :: '\n' :: rest => [] :: lines rest
  | c :: rest => consLine c (lines rest)

end Twisty.Text
