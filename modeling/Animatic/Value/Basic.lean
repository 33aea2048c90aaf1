import Animatic.Number.Layout
import Animatic.Number.Reader
import Animatic.Scene.PrimitiveId
import Animatic.Script.Syntax
import Animatic.Text.Blank

/-!
# Values

The values a script computes with. Every value can be read as a number, as a truth value and as
text; none of these readings fails.

* `Value.toNumber`, `Value.isTrue` and `Value.text` are the readings.
* `Value.same` compares objects and functions by identity and everything else by content.
-/

namespace Animatic

/-- Who made an object: the session that runs the script, or the program around it. -/
inductive ObjectOrigin where
  | session
  | outside (number : Nat)
  deriving DecidableEq, Repr

/-- A reference to an object, with what never changes about it. Its origin and number identify it;
its properties are kept by the session. -/
structure ObjectRef where
  origin : ObjectOrigin
  number : Nat
  typeName : String
  /-- The primitive that stands for the object in the scene. -/
  host : Option PrimitiveId
  deriving DecidableEq, Repr

/-- Whether two references are to one object. -/
def ObjectRef.same (a b : ObjectRef) : Bool := a.origin == b.origin && a.number == b.number

/-- How an object is named in texts. -/
def ObjectRef.text (object : ObjectRef) : String :=
  "<" ++ object.typeName ++ "#" ++ toString object.number ++ ">"

/-- A value of the script language. -/
inductive Value where
  | null
  | number (value : Float)
  | text (value : String)
  | bool (value : Bool)
  | array (items : List Value)
  | object (object : ObjectRef)
  | function (function : Script.Function)

instance : Inhabited Value := ⟨.null⟩

namespace Value

/-- The name of a value's type. -/
def typeName : Value → String
  | null => "null"
  | number _ => "number"
  | text _ => "string"
  | bool _ => "bool"
  | array _ => "array"
  | object _ => "object"
  | function _ => "func"

/-- Whether a value is null. -/
def isNull : Value → Bool
  | null => true
  | _ => false

/-- The number that a text reads as: zero unless it names a finite number. -/
def numberOfText (s : String) : Float :=
  match Number.read? (Text.trim s.toList) with
  | some n => if n.isFinite then n else 0
  | none => 0

/-- The numeric reading: zero for whatever is neither a number, a truth value nor a text. -/
def toNumber : Value → Float
  | number n => n
  | bool b => if b then 1 else 0
  | text s => numberOfText s
  | _ => 0

/-- The truth reading: true, a number other than zero, or a text that is not empty. -/
def isTrue : Value → Bool
  | bool b => b
  | number n => n != 0
  | text s => s != ""
  | _ => false

/-- The object of an object value. -/
def object? : Value → Option ObjectRef
  | object o => some o
  | _ => none

/-- The items of an array value. -/
def items? : Value → Option (List Value)
  | array items => some items
  | _ => none

/-- The numeric readings of an array's items; nothing for any other value. -/
def numbers (value : Value) : List Float := (value.items?.getD []).map toNumber

/-- The primitive behind an object value. -/
def host? (value : Value) : Option PrimitiveId := value.object?.bind ObjectRef.host

/-- The text of a number: an integer below `10 ^ 15` has no fraction and no sign of zero, any other
number takes the fewest digits that read back. -/
def numberText (n : Float) : String :=
  match Number.integer? (Number.exact n) with
  | some whole => if whole.natAbs < Nat.pow 10 15 then Number.intText whole else Number.plainText n
  | none => Number.plainText n

/-- The text of a truth value. -/
def boolText (b : Bool) : String := if b then "true" else "false"

mutual

/-- The text of a value. -/
def display : Value → String
  | null => "null"
  | number n => numberText n
  | text s => s
  | bool b => boolText b
  | array items => "[" ++ ", ".intercalate (displayAll items) ++ "]"
  | object o => o.text
  | function f => "<func " ++ f.name ++ ">"

/-- The texts of some values. -/
def displayAll : List Value → List String
  | [] => []
  | value :: rest => value.display :: displayAll rest

end

mutual

/-- Objects and functions are the same by identity, everything else by content. -/
def same : Value → Value → Bool
  | null, null => true
  | number a, number b => a == b
  | text a, text b => a == b
  | bool a, bool b => a == b
  | array a, array b => sameAll a b
  | object a, object b => a.same b
  | function a, function b => a.definedAt == b.definedAt
  | _, _ => false

/-- Lists of values are the same item by item. -/
def sameAll : List Value → List Value → Bool
  | [], [] => true
  | a :: as, b :: bs => a.same b && sameAll as bs
  | _, _ => false

end

end Value

end Animatic
