import Animatic.Geometry.Point

/-!
# Outlines

An outline is a sequence of points in which separators delimit loops. `loops` takes it apart and
`ofLoops` puts it together again; empty loops are dropped on the way.
-/

namespace Animatic

/-- Points, with a separator between one loop and the next. -/
abbrev Outline := List Point

namespace Outline

/-- Puts a point in front of the pieces behind it; a separator starts a new piece. -/
def addPoint (p : Point) (pieces : List (List Point)) : List (List Point) :=
  if p.isSeparator then [] :: pieces
  else
    match pieces with
    | [] => [[p]]
    | piece :: others => (p :: piece) :: others

/-- The pieces between separators, empty ones included. -/
def pieces (outline : Outline) : List (List Point) := outline.foldr addPoint [[]]

/-- The loops of an outline: its pieces with at least one point. -/
def loops (outline : Outline) : List (List Point) := outline.pieces.filter (!·.isEmpty)

/-- The outline of some loops, with one separator between neighbours. -/
def ofLoops (loops : List (List Point)) : Outline := [Point.separator].intercalate loops

/-- The number of loops. -/
def loopCount (outline : Outline) : Nat := outline.loops.length

/-- The least box around some points, as its lowest and its highest corner. -/
def corners (points : List Point) : Point × Point :=
  let infinity : Float32 := 1 / 0
  points.foldl
    (fun (low, high) p =>
      (⟨Number.least32 low.x p.x, Number.least32 low.y p.y⟩,
        ⟨Number.greatest32 high.x p.x, Number.greatest32 high.y p.y⟩))
    (⟨infinity, infinity⟩, ⟨-infinity, -infinity⟩)

/-- The centre of the least box around an outline, and the origin if it has no point. -/
def center (outline : Outline) : Point :=
  let (low, high) := corners (outline.filter (!·.isSeparator))
  if high.x < low.x then .origin else ⟨(low.x + high.x) * 0.5, (low.y + high.y) * 0.5⟩

/-- The outline moved so that its box is centred on the origin. -/
def centered (outline : Outline) : Outline :=
  let c := outline.center
  outline.map fun p => if p.isSeparator then p else ⟨p.x - c.x, p.y - c.y⟩

/-- The corners of a rectangle around the origin. -/
def rect (width height : Float32) : Outline :=
  let w := width * 0.5
  let h := height * 0.5
  [⟨-w, -h⟩, ⟨w, -h⟩, ⟨w, h⟩, ⟨-w, h⟩]

/-- A full turn in radians. -/
def fullTurn : Float32 := 6.2831855

/-- Points on a circle around the origin, at least three. -/
def circle (radius : Float32) (segments : Nat) : Outline :=
  let segments := max segments 3
  (List.range segments).map fun i =>
    let angle := fullTurn * Float32.ofNat i / Float32.ofNat segments
    ⟨radius * angle.cos, radius * angle.sin⟩

end Outline

/-- The outline of one character, and how far the next one stands from it. -/
structure Glyph where
  loops : List (List Point)
  advance : Float32

/-- A box for every character that is not white space. -/
def Glyph.box (blank : Bool) (size : Float32) : Glyph :=
  if blank then ⟨[], size * 0.5⟩
  else
    let w := size * 0.6
    ⟨[[⟨0, 0⟩, ⟨w, 0⟩, ⟨w, size⟩, ⟨0, size⟩]], size * 0.7⟩

end Animatic
