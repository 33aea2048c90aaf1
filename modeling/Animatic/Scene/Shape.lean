import Animatic.Text.Blank

/-!
# Shapes

The kinds of primitives, and what a primitive was constructed from.
-/

namespace Animatic

/-- The kind of a primitive. -/
inductive PrimitiveKind where
  | rect
  | circle
  | polygon
  | line
  | text
  deriving DecidableEq, Repr

namespace PrimitiveKind

/-- Every kind. -/
def all : List PrimitiveKind := [rect, circle, polygon, line, text]

/-- The type name of a kind in scripts. -/
def name : PrimitiveKind → String
  | rect => "rect"
  | circle => "circle"
  | polygon => "polygon"
  | line => "line"
  | text => "text"

/-- The kind of a type name, ignoring case. -/
def ofName? (typeName : String) : Option PrimitiveKind :=
  all.find? (Text.sameIgnoringCase ·.name typeName)

end PrimitiveKind

/-- Where a text stands relative to its position. -/
inductive Align where
  | left
  | center
  | right
  deriving DecidableEq, Repr

namespace Align

/-- Every alignment. -/
def all : List Align := [left, center, right]

/-- The name of an alignment. -/
def name : Align → String
  | left => "left"
  | center => "center"
  | right => "right"

/-- The alignment of a name, ignoring case. -/
def ofName? (name : String) : Option Align := all.find? (Text.sameIgnoringCase ·.name name)

end Align

/-- A point of space, of which only the first two coordinates are drawn. -/
structure Vec3 where
  x : Float32
  y : Float32
  z : Float32

/-- What a primitive was constructed from. -/
inductive Shape where
  | rect (width height : Float32)
  | circle (radius : Float32) (segments : Nat)
  | polygon
  | line (start stop : Vec3)
  | text (content : String) (size : Float32) (font : String) (align : Align)

/-- The kind of a shape. -/
def Shape.kind : Shape → PrimitiveKind
  | rect .. => .rect
  | circle .. => .circle
  | polygon => .polygon
  | line .. => .line
  | text .. => .text

end Animatic
