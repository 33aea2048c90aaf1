import Animatic.Script.Position

/-!
# Statements and expressions

The tree of a script. Each node keeps the position it is reported at: an operator's for a binary
expression, its first part's for a member, a call or a constructor, and its first token's elsewhere.
-/

namespace Animatic.Script

/-- A binary operator. All of them associate to the left. -/
inductive BinaryOp where
  | mul | div | rem | add | sub
  | eq | notEq | lt | gt | ltEq | gtEq
  | and | or
  deriving DecidableEq, Repr

/-- How tightly an operator binds. -/
def BinaryOp.precedence : BinaryOp → Nat
  | mul | div | rem => 20
  | add | sub => 10
  | eq | notEq | lt | gt | ltEq | gtEq => 5
  | and => 3
  | or => 2

/-- An operator in front of its operand. -/
inductive UnaryOp where
  | neg
  | not
  deriving DecidableEq, Repr

mutual

/-- An expression. -/
inductive Expr where
  | call (position : Position) (callee : Expr) (arguments : List Argument)
  | member (position : Position) (target : Expr) (name : String)
  | name (position : Position) (name : String)
  | number (position : Position) (value : Float)
  | bool (position : Position) (value : Bool)
  | text (position : Position) (value : String)
  | array (position : Position) (items : List Expr)
  | binary (position : Position) (op : BinaryOp) (lhs rhs : Expr)
  | unary (position : Position) (op : UnaryOp) (operand : Expr)
  /-- `Type(arguments){key: value}`. -/
  | construct (position : Position) (typeName : String) (arguments : List Argument)
      (properties : List PropertyInit)
  /-- A text put together from parts when it is evaluated. -/
  | interpolated (position : Position) (parts : List Part)

/-- An argument of a call. -/
inductive Argument where
  | positional (value : Expr)
  | named (name : String) (value : Expr)

/-- A property given in a constructor's braces. -/
inductive PropertyInit where
  | mk (name : String) (value : Expr)

/-- A part of an interpolated text. -/
inductive Part where
  | text (run : String)
  | expr (value : Expr)

end

/-- The position an expression is reported at. -/
def Expr.position : Expr → Position
  | .call p .. | .member p .. | .name p _ | .number p _ | .bool p _ | .text p _ | .array p _
  | .binary p .. | .unary p .. | .construct p .. | .interpolated p _ => p

/-- A statement. -/
inductive Stmt where
  | assign (position : Position) (target value : Expr)
  | expr (position : Position) (value : Expr)
  | wait (position : Position) (seconds : Expr)
  | loop (position : Position) (count : Expr) (body : List Stmt)
  | define (position : Position) (name : String) (parameters : List String) (body : List Stmt)
  | leave (position : Position) (value : Option Expr)

/-- The position of a statement's first token. -/
def Stmt.position : Stmt → Position
  | .assign p .. | .expr p _ | .wait p _ | .loop p .. | .define p .. | .leave p _ => p

/-- A function that a script defines. A source defines at most one function at a position, which
therefore tells its functions apart. -/
structure Function where
  name : String
  parameters : List String
  body : List Stmt
  definedAt : Position

end Animatic.Script
