import Animatic.Script.Position

/-!
# Tokens

Words such as `func`, `repeat`, `wait` and `return` are names here; whether a leading name is a
keyword is for the grammar to decide.
-/

namespace Animatic.Script

/-- A delimiter or operator. -/
inductive Mark where
  | leftParen | rightParen | leftBrace | rightBrace | leftBracket | rightBracket
  | comma | colon | semicolon | dot | assign
  | plus | minus | star | slash | percent | bang
  | equal | notEqual | less | greater | lessEqual | greaterEqual | andAnd | orOr
  deriving DecidableEq, Repr

/-- How the braces inside a string literal are read. -/
inductive LiteralStyle where
  /-- As they stand. -/
  | verbatim
  /-- A dotted name in braces reads a variable. -/
  | names
  /-- Braces hold an expression. -/
  | expressions
  deriving DecidableEq, Repr

/-- The kind of a token, with what it stands for. -/
inductive Token.Kind where
  | name (name : String)
  | number (value : Float)
  | literal (style : LiteralStyle) (content : String)
  | mark (mark : Mark)
  /-- A character that starts no token. -/
  | stray (c : Char)
  /-- The end of the text. -/
  | finish

/-- A token with the text it was read from and the position of its first character. -/
structure Token where
  kind : Token.Kind
  text : String
  position : Position

namespace Token

/-- Whether an operand can end with a token of this kind, so that a `<` behind it compares. `return`
and `repeat` are followed by an expression, so they end none. -/
def Kind.endsOperand : Kind → Bool
  | name word => word != "return" && word != "repeat"
  | number _ | literal .. => true
  | mark .rightParen | mark .rightBracket | mark .rightBrace => true
  | _ => false

/-- Whether a token is the given mark. -/
def isMark (mark : Mark) (token : Token) : Bool :=
  match token.kind with
  | .mark other => other == mark
  | _ => false

/-- Whether a token stands for the end of the text. -/
def isFinish (token : Token) : Bool :=
  match token.kind with
  | .finish => true
  | _ => false

/-- How a token is named in a message. -/
def description (token : Token) : String :=
  if token.isFinish then "end of input" else token.text

/-- The end of a text at a position. -/
def atEnd (position : Position) : Token := ⟨.finish, "", position⟩

end Token

end Animatic.Script
