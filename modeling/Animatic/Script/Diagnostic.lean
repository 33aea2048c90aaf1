import Animatic.Script.Position

/-!
# Diagnostics

A problem found while a script is read, with the place where it was found. Lexical problems never
stop the reading; a syntactic one ends it.
-/

namespace Animatic.Script

/-- What is wrong with a script. -/
inductive Problem where
  /-- A character that starts no token. -/
  | unexpectedCharacter (c : Char)
  /-- A string literal that runs to the end of the text. -/
  | unclosedLiteral
  /-- Another token stands where one kind of token is needed. -/
  | expected (what found : String)
  /-- A token that starts no expression. -/
  | unexpected (found : String)
  /-- A token behind an expression that had to be the whole text. -/
  | trailing (found : String)
  /-- An assignment to something other than a name or a property. -/
  | invalidTarget
  /-- A positional argument behind a named one. -/
  | positionalAfterNamed
  /-- The text ends inside a block. -/
  | unclosedBlock
  deriving DecidableEq, Repr

/-- Whether a problem concerns characters or the order of tokens. -/
inductive Problem.Kind where
  | lexical
  | syntactic
  deriving DecidableEq, Repr

namespace Problem

/-- The kind of a problem. -/
def kind : Problem → Kind
  | unexpectedCharacter _ | unclosedLiteral => .lexical
  | _ => .syntactic

/-- The name of a kind. -/
def Kind.name : Kind → String
  | lexical => "Lex"
  | syntactic => "Syntax"

/-- The wording of a problem. -/
def message : Problem → String
  | unexpectedCharacter c => "unexpected character: '" ++ String.singleton c ++ "'"
  | unclosedLiteral => "unclosed string literal"
  | expected what found => "expected " ++ what ++ ", got '" ++ found ++ "'"
  | unexpected found => "unexpected '" ++ found ++ "'"
  | trailing found => "unexpected '" ++ found ++ "' after expression"
  | invalidTarget => "invalid assignment target"
  | positionalAfterNamed => "positional argument after named argument"
  | unclosedBlock => "expected '\x7d' before end of input"

end Problem

/-- A problem and its place. -/
structure Diagnostic where
  problem : Problem
  position : Position
  deriving DecidableEq, Repr

namespace Diagnostic

/-- The wording of a diagnostic without its place. -/
def message (d : Diagnostic) : String := d.problem.message

/-- One line with the place, the kind and the wording of a diagnostic. -/
def text (d : Diagnostic) : String :=
  "[" ++ toString d.position.line ++ ":" ++ toString d.position.column ++ "] "
    ++ d.problem.kind.name ++ ": " ++ d.message

end Diagnostic

end Animatic.Script
