import Animatic.Number.Exact
import Animatic.Number.Reader
import Animatic.Yaml.Node

/-!
# Typed readings of nodes

A node has no type of its own: what it means depends on what is wanted of it. Any scalar is a text,
but only a plain one is a number, so a quoted number is none.

* Natural numbers are decimal, or hexadecimal, octal or binary behind `0x`, `0o` or `0b`. A decimal
  one has no leading zero.
* Numbers with a fraction are decimal; the infinite ones and the one that is not a number start with
  a point.
-/

namespace Animatic.Yaml

/-- The value of digits in a base. -/
def digitsIn? (base : Nat) (digits : List Char) : Option Nat :=
  if digits.isEmpty then none
  else digits.foldlM (fun value c => do
    let digit ← hexDigit? c
    if digit < base then some (base * value + digit) else none) 0

/-- The natural number that a text writes. -/
def readNatural? (text : List Char) : Option Nat :=
  let unsigned :=
    match text with
    | '+' :: rest => rest
    | all => all
  match unsigned with
  | '0' :: 'x' :: digits => digitsIn? 16 digits
  | '0' :: 'o' :: digits => digitsIn? 8 digits
  | '0' :: 'b' :: digits => digitsIn? 2 digits
  | ['0'] => some 0
  | '0' :: _ => none
  | digits => digitsIn? 10 digits

/-- The number that a text writes. -/
def readNumber? (text : List Char) : Option Float :=
  let (isSigned, magnitude) :=
    match text with
    | '+' :: rest => (true, rest)
    | all => (false, all)
  if isSigned && magnitude.head?.any (fun c => c == '+' || c == '-') then none
  else if [".inf", ".Inf", ".INF"].contains (String.ofList magnitude) then some (1 / 0)
  else if ["-.inf", "-.Inf", "-.INF"].contains (String.ofList text) then some (-1 / 0)
  else if [".nan", ".NaN", ".NAN"].contains (String.ofList text) then some (0 / 0)
  else (Number.read? magnitude).filter Float.isFinite

/-- Whether a text stands for the absence of a value. -/
def isNullText (text : String) : Bool := ["", "~", "null", "Null", "NULL"].contains text

namespace Node

/-- The text of a scalar. -/
def text? : Node → Option String
  | scalar _ _ text => some text
  | _ => none

/-- The text of a scalar that may be read as a number: a plain one, or a literal block with the tag
of its type. -/
def numeral? (typeTag : String) : Node → Option (List Char)
  | scalar _ .plain text => some text.toList
  | scalar (some tag) .literal text => if tag == typeTag then some text.toList else none
  | _ => none

/-- The natural number of a node, if it is not above a limit. -/
def natural? (limit : Nat) (node : Node) : Option Nat := do
  (readNatural? (← node.numeral? "tag:yaml.org,2002:int")).filter (· ≤ limit)

/-- The number of a node. -/
def number? (node : Node) : Option Float := do
  readNumber? (← node.numeral? "tag:yaml.org,2002:float")

/-- The items of a sequence. -/
def items? : Node → Option (List Node)
  | sequence items => some items
  | _ => none

/-- The name that a node picks from a list of names: its text, or a tag of its own in front of
nothing. -/
def choice? : Node → Option String
  | scalar tag style text =>
    match tag.map String.toList with
    | some ('!' :: c :: name) =>
      if style = .plain ∧ isNullText text then some (String.ofList (c :: name)) else none
    | _ => some text
  | _ => none

/-- The entries of a mapping with the texts of their keys. An empty plain scalar is an empty
mapping. -/
def fields? : Node → Option (List (String × Node))
  | mapping entries => entries.mapM fun (key, value) => key.text?.map (·, value)
  | scalar _ .plain "" => some []
  | _ => none

end Node

end Animatic.Yaml
