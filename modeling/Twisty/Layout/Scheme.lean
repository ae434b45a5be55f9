import Twisty.Layout.Shape

/-! Which color belongs to which face. Opposite colors are never met at one corner, so
the corners tell the scheme: the corner between U, R and F names their colors, and
each of the three others is the one color that shares no corner with the color
opposite. A cube that was turned as a whole gives the scheme as it stands now.

A layout is valid if its corners are the eight corners of its scheme, each of them
once, and if opposite centers of an odd cube have opposite colors. Whether corners are
twisted, or could be brought to their places by turning, is not asked. -/

namespace Twisty

/-- One color for each face. -/
abbrev Scheme := PerFace Char

namespace Scheme

/-- The color opposite a color. -/
def opposite? (scheme : Scheme) (color : Char) : Option Char :=
  (scheme.faceOf? color).map fun face => scheme.get face.opposite

/-- The corner pieces of a cube that is colored by a scheme. -/
def pieces (scheme : Scheme) : List (Corner Char) := Corner.slots.map (Corner.map scheme.get)

/-- Whether two colors are met at one of the corners. -/
def meet (shown : List (Corner Char)) (color other : Char) : Bool :=
  shown.any fun c => color ∈ c.toList && other ∈ c.toList

/-- The one color that is never met at a corner with a given color. -/
def findOpposite (colors : List Char) (shown : List (Corner Char)) (color : Char) :
    Except LayoutFault Char :=
  match colors.filter fun other => other ≠ color && !meet shown color other with
  | [other] => .ok other
  | _ => .error (.noOpposite color)

end Scheme

namespace Shaped

variable {n : Nat}

/-- What the eight corners show. -/
def corners (c : Shaped n) : List (Corner Char) := Corner.slots.map (c.state.corner c.pos)

def scheme (c : Shaped n) : Except LayoutFault Scheme := do
  let colors := Palette.ofStickers c.state.stickers
  let front := c.state.corner c.pos ⟨.u, .r, .f⟩
  let down ← Scheme.findOpposite colors c.corners front.first
  let left ← Scheme.findOpposite colors c.corners front.second
  let back ← Scheme.findOpposite colors c.corners front.third
  let scheme : Scheme := ⟨front.first, front.third, front.second, back, left, down⟩
  if scheme.toList.Nodup then .ok scheme else .error (.noOpposite front.first)

/-- Finds a piece for every slot in turn, none of them twice. -/
def fitPieces (c : Shaped n) (pieces : List (Corner Char)) :
    List (Corner Char) → List (Corner Face) → Except LayoutFault Unit
  | _, [] => .ok ()
  | used, slot :: rest =>
    let shown := c.state.corner c.pos slot
    match pieces.find? fun piece => shown.SameRound piece with
    | none => .error (.impossibleCorner slot shown)
    | some piece =>
      if piece ∈ used then .error (.repeatedPiece piece)
      else c.fitPieces pieces (piece :: used) rest

/-- Checks that the centers of opposite faces have opposite colors. -/
def checkCenters (c : Shaped n) (scheme : Scheme) : Except LayoutFault Unit :=
  let center := c.state.center c.pos
  let mismatched := [Face.u, .f, .r].find? fun face =>
    scheme.opposite? (center face) ≠ some (center face.opposite)
  match mismatched with
  | some face => .error (.mismatchedCenters (center face) (center face.opposite))
  | none => .ok ()

def validate (c : Shaped n) : Except LayoutFault Scheme := do
  let scheme ← c.scheme
  c.fitPieces scheme.pieces [] Corner.slots
  if n % 2 = 1 then c.checkCenters scheme
  return scheme

end Shaped

namespace Layout

def scheme (layout : Layout) (size : Nat) : Except LayoutFault Scheme :=
  layout.shape size >>= Shaped.scheme

def validate (layout : Layout) (size : Nat) : Except LayoutFault Scheme :=
  layout.shape size >>= Shaped.validate

def isValid (layout : Layout) (size : Nat) : Bool := (layout.validate size).isOk

end Layout

end Twisty
