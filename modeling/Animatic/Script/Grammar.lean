import Animatic.Script.Diagnostic
import Animatic.Script.Literal
import Animatic.Script.Syntax
import Animatic.Script.Token

/-!
# The grammar of statements and expressions

Each reading takes tokens from the front of a list and says, in its type, that fewer remain. A
reading fails at the first token that does not fit.

* `expression` climbs precedences: `binary least` takes every operator that binds at least as
  tightly as `least`, each with a right operand that binds more tightly.
* `constructors` tells whether a brace behind a name opens a constructor. It does everywhere but in
  the count of a `repeat`, where the brace opens the body; brackets of any kind restore it.
* The content of a literal whose braces hold expressions is read by `splice`, which is a parameter
  here: a span is a text of its own.
-/

namespace Animatic.Script

/-- A value read from the front of some tokens, and the tokens behind it: fewer than `bound`. -/
structure Reading (α : Type) (bound : Nat) where
  value : α
  rest : List Token
  shorter : rest.length < bound

/-- A reading or the problem that ended it. -/
abbrev Read (α : Type) (bound : Nat) := Except Diagnostic (Reading α bound)

/-- The token in front; behind the last token stands the end of the text. -/
def front (tokens : List Token) : Token := tokens.headD (.atEnd .start)

/-- The problem that the token in front is not what is needed. -/
def expected (what : String) (tokens : List Token) : Diagnostic :=
  ⟨.expected what (front tokens).description, (front tokens).position⟩

/-- Takes a mark if it is in front. -/
def mark? (mark : Mark) : (tokens : List Token) → Option (Reading Unit tokens.length)
  | [] => none
  | token :: rest => if token.isMark mark then some ⟨(), rest, by simp⟩ else none

/-- Takes a mark; `what` names it in a message. -/
def takeMark (mark : Mark) (what : String) (tokens : List Token) : Read Unit tokens.length :=
  match mark? mark tokens with
  | some reading => .ok reading
  | none => .error (expected what tokens)

/-- Takes a name. -/
def takeName (tokens : List Token) : Read String tokens.length :=
  match tokens with
  | ⟨.name name, _, _⟩ :: rest => .ok ⟨name, rest, by simp⟩
  | _ => .error (expected "identifier" tokens)

/-- Takes the name of a property: a name or a verbatim literal. -/
def takePropertyName (tokens : List Token) : Read String tokens.length :=
  match tokens with
  | ⟨.name name, _, _⟩ :: rest => .ok ⟨name, rest, by simp⟩
  | ⟨.literal .verbatim name, _, _⟩ :: rest => .ok ⟨name, rest, by simp⟩
  | _ => .error (expected "property name" tokens)

/-- The operator that a mark stands for between two operands. -/
def Mark.binaryOp? : Mark → Option BinaryOp
  | star => some .mul
  | slash => some .div
  | percent => some .rem
  | plus => some .add
  | minus => some .sub
  | equal => some .eq
  | notEqual => some .notEq
  | less => some .lt
  | greater => some .gt
  | lessEqual => some .ltEq
  | greaterEqual => some .gtEq
  | andAnd => some .and
  | orOr => some .or
  | _ => none

/-- The binary operator that a token stands for. -/
def Token.binaryOp? (token : Token) : Option BinaryOp :=
  match token.kind with
  | .mark mark => mark.binaryOp?
  | _ => none

/-- The operator that a token stands for in front of an operand. -/
def Token.unaryOp? (token : Token) : Option UnaryOp :=
  match token.kind with
  | .mark .minus => some .neg
  | .mark .bang => some .not
  | _ => none

/-- The type name and arguments of an expression that may take a constructor's braces. -/
def Expr.constructorHead? : Expr → Option (String × List Argument)
  | .name _ typeName => some (typeName, [])
  | .call _ (.name _ typeName) arguments => some (typeName, arguments)
  | _ => none

/-- Whether an argument is given by name. -/
def Argument.isNamed : Argument → Bool
  | .named .. => true
  | .positional _ => false

/-- Whether an expression can be assigned to. -/
def Expr.isTarget : Expr → Bool
  | .name .. => true
  | .member .. => true
  | _ => false

/-- The parameter names of a function, up to and with the closing parenthesis. -/
def parameterList (tokens : List Token) : Read (List String) tokens.length :=
  match mark? .rightParen tokens with
  | some ⟨_, rest, h⟩ => .ok ⟨[], rest, h⟩
  | none => do
    let ⟨name, rest₁, h₁⟩ ← takeName tokens
    match mark? .comma rest₁ with
    | some ⟨_, rest₂, h₂⟩ =>
      let ⟨names, rest₃, h₃⟩ ← parameterList rest₂
      return ⟨name :: names, rest₃, by omega⟩
    | none =>
      let ⟨_, rest₂, h₂⟩ ← takeMark .rightParen "')' after parameters" rest₁
      return ⟨[name], rest₂, by omega⟩
termination_by tokens.length

section

variable (splice : Position → List Char → Except Diagnostic (List Part))

mutual

/-- An expression. -/
def expression (constructors : Bool) (tokens : List Token) : Read Expr tokens.length :=
  binary constructors 1 tokens
termination_by (tokens.length, 4)

/-- An expression whose operators all bind at least as tightly as `least`. -/
def binary (constructors : Bool) (least : Nat) (tokens : List Token) :
    Read Expr tokens.length := do
  let ⟨lhs, rest, h₁⟩ ← unary constructors tokens
  let ⟨value, rest, h₂⟩ ← operators constructors least lhs rest
  return ⟨value, rest, by omega⟩
termination_by (tokens.length, 3)

/-- The operators and right operands behind a left operand. -/
def operators (constructors : Bool) (least : Nat) (lhs : Expr) (tokens : List Token) :
    Read Expr (tokens.length + 1) :=
  match tokens with
  | [] => .ok ⟨lhs, [], by simp⟩
  | token :: rest =>
    match token.binaryOp? with
    | none => .ok ⟨lhs, token :: rest, by simp⟩
    | some op =>
      if op.precedence < least then .ok ⟨lhs, token :: rest, by simp⟩
      else do
        let ⟨rhs, rest₁, h₁⟩ ← binary constructors (op.precedence + 1) rest
        let ⟨value, rest₂, h₂⟩ ←
          operators constructors least (.binary token.position op lhs rhs) rest₁
        return ⟨value, rest₂, by simp only [List.length_cons]; omega⟩
termination_by (tokens.length, 0)

/-- Operators in front of an operand. -/
def unary (constructors : Bool) (tokens : List Token) : Read Expr tokens.length :=
  match tokens with
  | [] => postfixed constructors []
  | token :: rest =>
    match token.unaryOp? with
    | none => postfixed constructors (token :: rest)
    | some op => do
      let ⟨operand, rest₁, h₁⟩ ← unary constructors rest
      return ⟨.unary token.position op operand, rest₁, by simp only [List.length_cons]; omega⟩
termination_by (tokens.length, 2)

/-- An operand with the members, calls and constructor braces behind it. -/
def postfixed (constructors : Bool) (tokens : List Token) : Read Expr tokens.length := do
  let ⟨value, rest, h₁⟩ ← primary constructors tokens
  let ⟨value, rest, h₂⟩ ← suffixes constructors value rest
  return ⟨value, rest, by omega⟩
termination_by (tokens.length, 1)

/-- Members, calls and constructor braces behind an expression. -/
def suffixes (constructors : Bool) (value : Expr) (tokens : List Token) :
    Read Expr (tokens.length + 1) :=
  match tokens with
  | [] => .ok ⟨value, [], by simp⟩
  | token :: rest =>
    if token.isMark .dot then do
      let ⟨name, rest₁, h₁⟩ ← takeName rest
      let ⟨value, rest₂, h₂⟩ ← suffixes constructors (.member value.position value name) rest₁
      return ⟨value, rest₂, by simp only [List.length_cons]; omega⟩
    else if token.isMark .leftParen then do
      let ⟨arguments, rest₁, h₁⟩ ← argumentList false rest
      let ⟨value, rest₂, h₂⟩ ← suffixes constructors (.call value.position value arguments) rest₁
      return ⟨value, rest₂, by simp only [List.length_cons]; omega⟩
    else if token.isMark .leftBrace && constructors then
      match value.constructorHead? with
      | none => .ok ⟨value, token :: rest, by simp⟩
      | some (typeName, arguments) => do
        let ⟨properties, rest₁, h₁⟩ ← propertyList rest
        let ⟨value, rest₂, h₂⟩ ←
          suffixes constructors (.construct value.position typeName arguments properties) rest₁
        return ⟨value, rest₂, by simp only [List.length_cons]; omega⟩
    else .ok ⟨value, token :: rest, by simp⟩
termination_by (tokens.length, 0)

/-- A literal, a name, an array, a parenthesised expression, or a list in the braces of `Add`. -/
def primary (constructors : Bool) (tokens : List Token) : Read Expr tokens.length :=
  match tokens with
  | [] => .error ⟨.unexpected (front []).description, (front []).position⟩
  | token :: rest =>
    let position := token.position
    match token.kind with
    | .number value => .ok ⟨.number position value, rest, by simp⟩
    | .literal .verbatim content => .ok ⟨.text position content, rest, by simp⟩
    | .literal .names content =>
      .ok ⟨.interpolated position (Literal.namedParts position content.toList), rest, by simp⟩
    | .literal .expressions content => do
      let parts ← splice position content.toList
      return ⟨.interpolated position parts, rest, by simp⟩
    | .mark .leftBracket => do
      let ⟨items, rest₁, h₁⟩ ← expressionList .rightBracket "']'" rest
      return ⟨.array position items, rest₁, by simp only [List.length_cons]; omega⟩
    | .mark .leftParen => do
      let ⟨value, rest₁, h₁⟩ ← expression true rest
      let ⟨_, rest₂, h₂⟩ ← takeMark .rightParen "')'" rest₁
      return ⟨value, rest₂, by simp only [List.length_cons]; omega⟩
    | .name name =>
      if name == "true" || name == "false" then .ok ⟨.bool position (name == "true"), rest, by simp⟩
      else
        match if name == "Add" && constructors then mark? .leftBrace rest else none with
        | some ⟨_, rest₁, h₁⟩ => do
          let ⟨items, rest₂, h₂⟩ ← expressionList .rightBrace "'\x7d'" rest₁
          return ⟨.call position (.name position name) [.positional (.array position items)], rest₂,
            by simp only [List.length_cons]; omega⟩
        | none => .ok ⟨.name position name, rest, by simp⟩
    | _ => .error ⟨.unexpected token.description, position⟩
termination_by (tokens.length, 0)

/-- Expressions between commas, up to and with the mark that closes them. -/
def expressionList (close : Mark) (what : String) (tokens : List Token) :
    Read (List Expr) tokens.length :=
  match mark? close tokens with
  | some ⟨_, rest, h⟩ => .ok ⟨[], rest, h⟩
  | none => do
    let ⟨item, rest₁, h₁⟩ ← expression true tokens
    match mark? .comma rest₁ with
    | some ⟨_, rest₂, h₂⟩ =>
      let ⟨items, rest₃, h₃⟩ ← expressionList close what rest₂
      return ⟨item :: items, rest₃, by omega⟩
    | none =>
      let ⟨_, rest₂, h₂⟩ ← takeMark close what rest₁
      return ⟨[item], rest₂, by omega⟩
termination_by (tokens.length, 5)

/-- The arguments of a call, up to and with the closing parenthesis. Once one is named, all are. -/
def argumentList (seenNamed : Bool) (tokens : List Token) : Read (List Argument) tokens.length :=
  match mark? .rightParen tokens with
  | some ⟨_, rest, h⟩ => .ok ⟨[], rest, h⟩
  | none => do
    let ⟨argument, rest₁, h₁⟩ ← argument seenNamed tokens
    match mark? .comma rest₁ with
    | some ⟨_, rest₂, h₂⟩ =>
      let ⟨arguments, rest₃, h₃⟩ ← argumentList argument.isNamed rest₂
      return ⟨argument :: arguments, rest₃, by omega⟩
    | none =>
      let ⟨_, rest₂, h₂⟩ ← takeMark .rightParen "')' after arguments" rest₁
      return ⟨[argument], rest₂, by omega⟩
termination_by (tokens.length, 6)

/-- One argument: a name, a colon and an expression, or an expression alone. -/
def argument (seenNamed : Bool) (tokens : List Token) : Read Argument tokens.length :=
  match tokens with
  | ⟨.name name, _, _⟩ :: ⟨.mark .colon, _, _⟩ :: rest => do
    let ⟨value, rest₁, h₁⟩ ← expression true rest
    return ⟨.named name value, rest₁, by simp only [List.length_cons]; omega⟩
  | tokens =>
    if seenNamed then .error ⟨.positionalAfterNamed, (front tokens).position⟩
    else do
      let ⟨value, rest₁, h₁⟩ ← expression true tokens
      return ⟨.positional value, rest₁, h₁⟩
termination_by (tokens.length, 5)

/-- The properties in a constructor's braces, up to and with the closing brace. -/
def propertyList (tokens : List Token) : Read (List PropertyInit) tokens.length :=
  match mark? .rightBrace tokens with
  | some ⟨_, rest, h⟩ => .ok ⟨[], rest, h⟩
  | none => do
    let ⟨name, rest₁, h₁⟩ ← takePropertyName tokens
    let ⟨_, rest₂, h₂⟩ ← takeMark .colon "':' after property name" rest₁
    let ⟨value, rest₃, h₃⟩ ← expression true rest₂
    match mark? .comma rest₃ with
    | some ⟨_, rest₄, h₄⟩ =>
      let ⟨properties, rest₅, h₅⟩ ← propertyList rest₄
      return ⟨.mk name value :: properties, rest₅, by omega⟩
    | none =>
      let ⟨_, rest₄, h₄⟩ ← takeMark .rightBrace "'\x7d'" rest₃
      return ⟨[.mk name value], rest₄, by omega⟩
termination_by (tokens.length, 0)

end

end

end Animatic.Script
