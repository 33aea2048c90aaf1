import Animatic.Script.Syntax
import Animatic.Text.Blank
import Animatic.Text.Letter

/-!
# The inside of string literals

A literal is a sequence of plain runs and brace spans. A span reaches from a `{` to the `}` that
balances it; a `{` without one is plain text.

* `spans` finds them.
* `dottedName?` reads a span as a variable or a property of one.
* `namedParts` is the reading of a literal in which only dotted names stand for values.
-/

namespace Animatic.Script.Literal

open Animatic.Text

/-- A piece of a literal. -/
inductive Span where
  | plain (run : List Char)
  | braced (content : List Char)
  deriving DecidableEq, Repr

/-- The number of characters before the `}` that balances an opening brace, with `depth` further
braces open. -/
def closingBrace? (depth : Nat) : List Char → Option Nat
  | [] => none
  | c :: rest =>
    if c = '\x7d' then
      match depth with
      | 0 => some 0
      | depth + 1 => (closingBrace? depth rest).map (· + 1)
    else (closingBrace? (if c = '\x7b' then depth + 1 else depth) rest).map (· + 1)

/-- A character in front of the pieces that follow it. -/
def prepend (c : Char) : List Span → List Span
  | .plain run :: spans => .plain (c :: run) :: spans
  | spans => .plain [c] :: spans

/-- The pieces of a literal. -/
def spans : List Char → List Span
  | [] => []
  | c :: rest =>
    match if c = '\x7b' then closingBrace? 0 rest else none with
    | some length => .braced (rest.take length) :: spans (rest.drop (length + 1))
    | none => prepend c (spans rest)
termination_by text => text.length
decreasing_by all_goals simp only [List.length_drop, List.length_cons]; omega

/-- The pieces of a text between dots. -/
def segments : List Char → List (List Char)
  | [] => [[]]
  | c :: rest =>
    if c = '.' then [] :: segments rest
    else
      match segments rest with
      | [] => [[c]]
      | first :: others => (c :: first) :: others

/-- Whether a text is a name. -/
def isName : List Char → Bool
  | [] => false
  | c :: rest => startsName c && rest.all continuesName

/-- The variable, or the property of one, that a dotted path names. -/
def dottedName? (position : Position) (path : List Char) : Option Expr :=
  match segments path with
  | [] => none
  | first :: others =>
    if isName first && others.all isName then
      some (others.foldl (fun target name => .member position target (String.ofList name))
        (.name position (String.ofList first)))
    else none

/-- The part that a piece stands for when only dotted names are read; any other span stays text. -/
def namedPart (position : Position) : Span → Part
  | .plain run => .text (String.ofList run)
  | .braced content =>
    match dottedName? position (trim content) with
    | some value => .expr value
    | none => .text (String.ofList ('\x7b' :: content ++ ['\x7d']))

/-- The parts of a literal in which only dotted names stand for values. -/
def namedParts (position : Position) (text : List Char) : List Part :=
  (spans text).map (namedPart position)

end Animatic.Script.Literal
