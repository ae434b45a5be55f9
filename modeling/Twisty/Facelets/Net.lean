import Twisty.Facelets.Basic

/-! The net of a cube, unfolded: U on top, then L F R B side by side, then D below F.
U and D stand in from the left by the width of one face. -/

namespace Twisty.Facelets

open Grid

variable {n : Nat}

/-- One row of several faces side by side. -/
def stripLine (rows : List (List Char)) : List Char :=
  '│' :: rows.flatMap fun row => ' ' :: spaced row ++ [' ', '│']

/-- Four borders side by side, with their joints. -/
def seamLine (n : Nat) (left middle joint right : Char) : List Char :=
  left :: border n ++ middle :: border n ++ middle :: border n ++ joint :: border n ++ [right]

def indented (n : Nat) (line : List Char) : List Char := List.replicate (2 * n + 2) ' ' ++ line

/-- The rows of the four sides, each with its neighbours. -/
def stripRows (s : Facelets n) : List (List Char) :=
  (List.finRange n).map fun i =>
    stripLine ([s.l, s.f, s.r, s.b].map fun g => (g.rows.get i).toList)

def netLines (s : Facelets n) : List (List Char) :=
  indented n ('┌' :: border n ++ ['┐']) ::
    s.u.toRows.map (fun row => indented n (stripLine [row])) ++
    seamLine n '┌' '┼' '┬' '┐' :: s.stripRows ++
    seamLine n '└' '┼' '┴' '┘' ::
    s.d.toRows.map (fun row => indented n (stripLine [row])) ++
    [indented n ('└' :: border n ++ ['┘'])]

def net (s : Facelets n) : String := String.ofList (['\n'].intercalate s.netLines)

end Twisty.Facelets
