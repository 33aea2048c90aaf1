import Animatic.Construct.Parameter
import Animatic.Log

/-!
# Constructors

The five types of primitives that a script can construct, with their parameters and how each is made
from its arguments.
-/

namespace Animatic.Construct

/-- A constructible type. -/
structure Constructor where
  typeName : String
  parameters : List Parameter
  build : Bound → Except ConstructError Primitive

/-- A rectangle. -/
def rect : Constructor where
  typeName := PrimitiveKind.rect.name
  parameters :=
    [⟨"width", .float, .number 0.5⟩, ⟨"height", .float, .number 0.5⟩,
      ⟨"filled", .bool, .bool true⟩]
  build arguments := do
    return .rect (← arguments.float "width") (← arguments.float "height")
      (← arguments.bool "filled")

/-- A circle; its number of segments is rounded and is at least three. -/
def circle : Constructor where
  typeName := PrimitiveKind.circle.name
  parameters :=
    [⟨"radius", .float, .number 0.25⟩, ⟨"filled", .bool, .bool true⟩,
      ⟨"segments", .float, .circleSegments⟩]
  build arguments := do
    let segments ← arguments.float "segments"
    return .circle (← arguments.float "radius")
      (max 3 (Number.roundWithin Number.wordLimit (Number.exact32 segments)))
      (← arguments.bool "filled")

/-- A polygon, which needs at least one point. It is kept centred, and its centre becomes its
position. -/
def polygon : Constructor where
  typeName := PrimitiveKind.polygon.name
  parameters := [⟨"points", .points, .emptyList⟩, ⟨"filled", .bool, .bool true⟩]
  build arguments := do
    let points ← arguments.points "points"
    if points.isEmpty then throw (.invalidValue PrimitiveKind.polygon.name "points" "[]")
    let center := Outline.center points
    let p := Primitive.polygon (Outline.centered points) (← arguments.bool "filled")
    return { p with transform := { p.transform with x := center.x, y := center.y } }

/-- A line. -/
def line : Constructor where
  typeName := PrimitiveKind.line.name
  parameters := [⟨"from", .vec3, .vec3 0 0 0⟩, ⟨"to", .vec3, .vec3 1 0 0⟩]
  build arguments := do
    return .line (← arguments.vec3 "from") (← arguments.vec3 "to")

/-- A text. -/
def text : Constructor where
  typeName := PrimitiveKind.text.name
  parameters :=
    [⟨"content", .text, .text ""⟩, ⟨"size", .float, .textSize⟩, ⟨"font", .text, .font⟩,
      ⟨"align", .choice (Align.all.map Align.name), .text "center"⟩]
  build arguments := do
    let align ← arguments.choice "align"
    return .text (← arguments.text "content") (← arguments.float "size") (← arguments.text "font")
      ((Align.ofName? align).getD .center)

/-- The constructor of a kind of primitive. -/
def ofKind : PrimitiveKind → Constructor
  | .rect => rect
  | .circle => circle
  | .polygon => polygon
  | .line => line
  | .text => text

/-- The constructor of a type name, ignoring case. -/
def find? (typeName : String) : Option Constructor := (PrimitiveKind.ofName? typeName).map ofKind

namespace Constructor

/-- What is logged when there are more positional arguments than parameters. -/
def surplus (constructor : Constructor) (positional : List Value) : List LogEntry :=
  let count := constructor.parameters.length
  if count < positional.length then
    [⟨.debug, constructor.typeName ++ ": ignoring " ++ toString (positional.length - count)
      ++ " extra arguments"⟩]
  else []

/-- Gives every parameter its argument. -/
def bind (constructor : Constructor) (settings : Settings) (positional : List Value)
    (properties : PropertyMap) : Except ConstructError Bound := do
  return ⟨constructor.typeName,
    ← bindAll settings constructor.typeName properties constructor.parameters positional⟩

/-- Constructs a primitive. -/
def construct (constructor : Constructor) (settings : Settings) (positional : List Value)
    (properties : PropertyMap) : Except ConstructError Primitive := do
  constructor.build (← constructor.bind settings positional properties)

end Constructor

/-- Constructs a primitive of a named type, and tells what is logged on the way. -/
def build (settings : Settings) (typeName : String) (positional : List Value)
    (properties : PropertyMap) : Except ConstructError Primitive × List LogEntry :=
  match find? typeName with
  | none => (.error (.unknownType typeName), [])
  | some constructor =>
    (constructor.construct settings positional properties, constructor.surplus positional)

end Animatic.Construct
