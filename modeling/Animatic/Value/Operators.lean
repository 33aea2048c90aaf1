import Animatic.Value.Basic

/-!
# Operators

Operators never fail either: `+` joins texts as soon as one operand is a text, the logical operators
read truth values, and all others read numbers. Division and remainder by zero are zero.
-/

namespace Animatic.Value

open Script (BinaryOp UnaryOp)

/-- An operator on numbers. The logical operators do not act on numbers. -/
def numeric (op : BinaryOp) (a b : Float) : Value :=
  match op with
  | .mul => number (a * b)
  | .div => number (if b == 0 then 0 else a / b)
  | .rem => number (if b == 0 then 0 else Number.remainder a b)
  | .add => number (a + b)
  | .sub => number (a - b)
  | .eq => bool (a == b)
  | .notEq => bool (a != b)
  | .lt => bool (a < b)
  | .gt => bool (b < a)
  | .ltEq => bool (a ≤ b)
  | .gtEq => bool (b ≤ a)
  | .and | .or => null

/-- Whether a value is a text. -/
def isText : Value → Bool
  | text _ => true
  | _ => false

/-- The value of a binary operator. -/
def binary (op : BinaryOp) (lhs rhs : Value) : Value :=
  match op with
  | .and => bool (lhs.isTrue && rhs.isTrue)
  | .or => bool (lhs.isTrue || rhs.isTrue)
  | .add =>
    if lhs.isText || rhs.isText then text (lhs.display ++ rhs.display)
    else numeric .add lhs.toNumber rhs.toNumber
  | op => numeric op lhs.toNumber rhs.toNumber

/-- The value of an operator in front of its operand. -/
def unary (op : UnaryOp) (operand : Value) : Value :=
  match op with
  | .neg => number (-operand.toNumber)
  | .not => bool !operand.isTrue

end Animatic.Value
