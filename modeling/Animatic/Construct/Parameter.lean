import Animatic.Settings.Basic
import Animatic.Text.Quoted
import Animatic.Value.PropertyMap

/-!
# Constructor parameters

A constructor declares its parameters in order, each with the way its value is converted and a
default. A parameter takes the positional argument at its place, or else the property of its name,
or else its default.

* `Converter.convert` turns a script value into a constructor argument, if it fits.
* `bind` gives every declared parameter an argument, or tells which is the first that gets none.
* The accessors of `Bound` read an argument back as what it was converted to.
-/

namespace Animatic.Construct

/-- Why a primitive cannot be constructed. -/
inductive ConstructError where
  | missingParameter (typeName parameter : String)
  | invalidValue (typeName parameter value : String)
  | unknownType (typeName : String)
  deriving DecidableEq, Repr

/-- The wording of an error. -/
def ConstructError.message : ConstructError → String
  | missingParameter typeName parameter => typeName ++ ": missing parameter `" ++ parameter ++ "`"
  | invalidValue typeName parameter value =>
    typeName ++ ": parameter `" ++ parameter ++ "` cannot take " ++ value
  | unknownType typeName => "no host type named `" ++ typeName ++ "`"

/-- How a script value becomes a constructor argument. -/
inductive Converter where
  /-- A number, narrowed to binary32. -/
  | float
  | text
  /-- Three numbers, in an array or in a text between commas. -/
  | vec3
  | bool
  /-- An array of points, each an array of at least two numbers. -/
  | points
  /-- One of some names, ignoring case. -/
  | choice (names : List String)

/-- A constructor argument. -/
inductive Argument where
  | float (value : Float32)
  | text (value : String)
  | vec3 (value : Vec3)
  | bool (value : Bool)
  | points (value : List Point)
  | choice (name : String)

/-- The texts between the commas of a text. -/
def commaParts : List Char → List (List Char)
  | [] => [[]]
  | c :: rest =>
    if c = ',' then [] :: commaParts rest
    else
      match commaParts rest with
      | [] => [[c]]
      | first :: others => (c :: first) :: others

/-- Three numbers as a point of space. -/
def vec3OfList? : List Float32 → Option Vec3
  | [x, y, z] => some ⟨x, y, z⟩
  | _ => none

/-- The number in a number value. -/
def narrowNumber? : Value → Option Float32
  | .number n => some (Number.narrow n)
  | _ => none

/-- A point of space. -/
def toVec3? : Value → Option Vec3
  | .array items => (items.mapM narrowNumber?).bind vec3OfList?
  | .text s => ((commaParts s.toList).mapM fun p => Number.read32? (Text.trim p)).bind vec3OfList?
  | _ => none

/-- A point of the plane. -/
def toPoint? (value : Value) : Option Point :=
  match value.numbers with
  | x :: y :: _ => some ⟨Number.narrow x, Number.narrow y⟩
  | _ => none

/-- A truth value. -/
def toBool? : Value → Option Bool
  | .bool b => some b
  | .number n => some (n != 0)
  | .text s =>
    match Text.lower (String.ofList (Text.trim s.toList)) with
    | "true" => some true
    | "false" => some false
    | _ => none
  | _ => none

/-- A binary32 number; a text is read at that width at once. -/
def toFloat? : Value → Option Float32
  | .number n => some (Number.narrow n)
  | .bool b => some (if b then 1 else 0)
  | .text s => Number.read32? (Text.trim s.toList)
  | _ => none

/-- A text; numbers and truth values are written out. -/
def toText? : Value → Option String
  | .text s => some s
  | .number n => some (Value.numberText n)
  | .bool b => some (Value.boolText b)
  | _ => none

/-- One of some names. -/
def toChoice? (names : List String) : Value → Option String
  | .text s => names.find? (Text.sameIgnoringCase · (String.ofList (Text.trim s.toList)))
  | _ => none

/-- Converts a value, if it fits. -/
def Converter.convert : Converter → Value → Option Argument
  | float, value => (toFloat? value).map .float
  | text, value => (toText? value).map .text
  | vec3, value => (toVec3? value).map .vec3
  | bool, value => (toBool? value).map .bool
  | points, value => (value.items?.bind (·.mapM toPoint?)).map .points
  | choice names, value => (toChoice? names value).map .choice

/-- An argument as messages show it. -/
def Argument.display : Argument → String
  | float x => "Float(" ++ Number.detailedText32 x ++ ")"
  | text s => "Text(" ++ Text.quote s ++ ")"
  | vec3 v =>
    "Vec3([" ++ ", ".intercalate ([v.x, v.y, v.z].map Number.detailedText32) ++ "])"
  | bool b => "Bool(" ++ Value.boolText b ++ ")"
  | points ps => "Points([" ++ ", ".intercalate (ps.map pointText) ++ "])"
  | choice name => "Enum(" ++ Text.quote name ++ ")"
where
  pointText (p : Point) : String :=
    "Point \x7b x: " ++ Number.detailedText32 p.x ++ ", y: " ++ Number.detailedText32 p.y ++ " \x7d"

/-- What a parameter takes when it is given neither by position nor by name. -/
inductive Default where
  | number (value : Float)
  | bool (value : Bool)
  | text (value : String)
  | vec3 (x y z : Float)
  | emptyList
  /-- The setting for the number of points of a circle. -/
  | circleSegments
  /-- The setting for the size of texts. -/
  | textSize
  /-- The setting for the font of texts. -/
  | font

/-- The value of a default. -/
def Default.value (settings : Settings) : Default → Value
  | number n => .number n
  | bool b => .bool b
  | text s => .text s
  | vec3 x y z => .array [.number x, .number y, .number z]
  | emptyList => .array []
  | circleSegments => .number settings.circleSegments.toFloat
  | textSize => .number (Number.widen settings.textSize)
  | font => .text settings.font

/-- A declared parameter. -/
structure Parameter where
  name : String
  converter : Converter
  default : Default

/-- Arguments for the parameters of a type, one for each in declaration order. -/
structure Bound where
  typeName : String
  arguments : List (String × Argument)

namespace Bound

/-- The argument of a parameter. -/
def find (bound : Bound) (name : String) : Except ConstructError Argument :=
  match bound.arguments.find? (·.1 == name) with
  | some (_, argument) => .ok argument
  | none => .error (.missingParameter bound.typeName name)

/-- The error that an argument is of another sort than the one asked for. -/
def mismatch (bound : Bound) (name : String) (argument : Argument) : ConstructError :=
  .invalidValue bound.typeName name argument.display

/-- A number. -/
def float (bound : Bound) (name : String) : Except ConstructError Float32 := do
  match ← bound.find name with
  | .float x => return x
  | other => throw (bound.mismatch name other)

/-- A text. -/
def text (bound : Bound) (name : String) : Except ConstructError String := do
  match ← bound.find name with
  | .text s => return s
  | other => throw (bound.mismatch name other)

/-- A point of space. -/
def vec3 (bound : Bound) (name : String) : Except ConstructError Vec3 := do
  match ← bound.find name with
  | .vec3 v => return v
  | other => throw (bound.mismatch name other)

/-- A truth value. -/
def bool (bound : Bound) (name : String) : Except ConstructError Bool := do
  match ← bound.find name with
  | .bool b => return b
  | other => throw (bound.mismatch name other)

/-- Points of the plane. -/
def points (bound : Bound) (name : String) : Except ConstructError (List Point) := do
  match ← bound.find name with
  | .points ps => return ps
  | other => throw (bound.mismatch name other)

/-- One of the names that the parameter allows. -/
def choice (bound : Bound) (name : String) : Except ConstructError String := do
  match ← bound.find name with
  | .choice chosen => return chosen
  | other => throw (bound.mismatch name other)

end Bound

/-- The value that a parameter takes: the positional argument at its place unless that is null, or
else the property of its name, or else its default. -/
def Parameter.select (settings : Settings) (properties : PropertyMap) (positional : Option Value)
    (parameter : Parameter) : Value :=
  ((positional.filter (!·.isNull)).or (properties.getIgnoringCase? parameter.name)).getD
    (parameter.default.value settings)

/-- The argument of a parameter. -/
def Parameter.argument (settings : Settings) (typeName : String) (properties : PropertyMap)
    (positional : Option Value) (parameter : Parameter) : Except ConstructError Argument :=
  let value := parameter.select settings properties positional
  if value.isNull then .error (.missingParameter typeName parameter.name)
  else
    match parameter.converter.convert value with
    | some argument => .ok argument
    | none => .error (.invalidValue typeName parameter.name value.display)

/-- The arguments of parameters in order, each with the positional argument at its place. -/
def bindAll (settings : Settings) (typeName : String) (properties : PropertyMap) :
    List Parameter → List Value → Except ConstructError (List (String × Argument))
  | [], _ => .ok []
  | parameter :: parameters, positional => do
    let argument ← parameter.argument settings typeName properties positional.head?
    let others ← bindAll settings typeName properties parameters positional.tail
    return (parameter.name, argument) :: others

end Animatic.Construct
