import Animatic.Number.Reader
import Animatic.Script.Diagnostic
import Animatic.Script.Token
import Animatic.Text.Blank
import Animatic.Text.Letter

/-!
# Lexemes

`Lexeme.read` decides which token starts at a character and how many further characters belong to
it. Every character starts a token; one that fits nowhere makes a token of its own.

* `triviaLength` counts the white space and comments in front of a token.
* `closingAngle?` finds the `>` that ends a literal: one outside every brace span.
-/

namespace Animatic.Script

open Animatic.Text Animatic.Number

/-- The number of leading characters that are white space or belong to a comment, which runs from
`#` to the end of its line. -/
def triviaLength (inComment : Bool) : List Char → Nat
  | [] => 0
  | c :: rest =>
    if inComment then triviaLength (c != '\n') rest + 1
    else if isBlank c then triviaLength false rest + 1
    else if c == '#' then triviaLength true rest + 1
    else 0

/-- The number of characters before the `>` that closes a literal. A `>` inside a brace span, at a
depth above zero, belongs to the literal; surplus closing braces are ignored. -/
def closingAngle? (depth : Nat) : List Char → Option Nat
  | [] => none
  | c :: rest =>
    if c = '>' ∧ depth = 0 then some 0
    else
      let depth := if c = '\x7b' then depth + 1 else if c = '\x7d' then depth - 1 else depth
      (closingAngle? depth rest).map (· + 1)

/-- The number of characters before the next double quote. -/
def closingQuote? : List Char → Option Nat
  | [] => none
  | c :: rest => if c = '"' then some 0 else (closingQuote? rest).map (· + 1)

/-- The marks that one character settles. -/
def Mark.ofChar? : Char → Option Mark
  | '(' => some .leftParen
  | ')' => some .rightParen
  | '\x7b' => some .leftBrace
  | '\x7d' => some .rightBrace
  | '[' => some .leftBracket
  | ']' => some .rightBracket
  | ',' => some .comma
  | ':' => some .colon
  | ';' => some .semicolon
  | '+' => some .plus
  | '-' => some .minus
  | '*' => some .star
  | '/' => some .slash
  | '%' => some .percent
  | _ => none

/-- What a token is, how many characters it takes behind its first one, and what is wrong with
it. -/
structure Lexeme where
  kind : Token.Kind
  extra : Nat
  problem : Option Problem

namespace Lexeme

/-- A mark without a problem. -/
def ofMark (mark : Mark) (extra : Nat) : Lexeme := ⟨.mark mark, extra, none⟩

/-- One mark if the given character follows, and another if not. -/
def pick (second : Char) (double single : Mark) : List Char → Lexeme
  | c :: _ => if c = second then ofMark double 1 else ofMark single 0
  | [] => ofMark single 0

/-- A literal whose content starts `skip` characters behind the first one and ends before the closer
that `closing?` finds, or runs to the end of the text. -/
def literal (style : LiteralStyle) (closing? : List Char → Option Nat) (skip : Nat)
    (rest : List Char) : Lexeme :=
  let body := rest.drop skip
  match closing? body with
  | some length => ⟨.literal style (String.ofList (body.take length)), skip + length + 1, none⟩
  | none => ⟨.literal style (String.ofList body), rest.length, some .unclosedLiteral⟩

/-- How many characters behind the first one belong to a number: digits and, unless the number
starts with its point, a point with at least one digit behind it. -/
def numberLength (first : Char) (rest : List Char) : Nat :=
  let digits := (rest.takeWhile Char.isDigit).length
  if first = '.' then digits
  else
    match rest.drop digits with
    | '.' :: afterPoint =>
      let fraction := (afterPoint.takeWhile Char.isDigit).length
      if fraction = 0 then digits else digits + 1 + fraction
    | _ => digits

/-- A number token. -/
def number (first : Char) (rest : List Char) : Lexeme :=
  let extra := numberLength first rest
  ⟨.number ((read? (first :: rest.take extra)).getD 0), extra, none⟩

/-- A name token. -/
def name (first : Char) (rest : List Char) : Lexeme :=
  let more := rest.takeWhile continuesName
  ⟨.name (String.ofList (first :: more)), more.length, none⟩

/-- The token that starts with `first`. A `<` compares behind an operand and opens a literal
anywhere else. -/
def read (afterOperand : Bool) (first : Char) (rest : List Char) : Lexeme :=
  match Mark.ofChar? first with
  | some mark => ofMark mark 0
  | none =>
    if first = '=' then pick '=' .equal .assign rest
    else if first = '!' then pick '=' .notEqual .bang rest
    else if first = '>' then pick '=' .greaterEqual .greater rest
    else if first = '<' then
      if afterOperand then pick '=' .lessEqual .less rest
      else literal .verbatim (closingAngle? 0) 0 rest
    else if first = '&' ∧ rest.head? = some '&' then ofMark .andAnd 1
    else if first = '&' ∧ rest.head? = some '<' then literal .names (closingAngle? 0) 1 rest
    else if first = '$' ∧ rest.head? = some '<' then literal .expressions (closingAngle? 0) 1 rest
    else if first = '|' ∧ rest.head? = some '|' then ofMark .orOr 1
    else if first = '"' then literal .verbatim closingQuote? 0 rest
    else if first = '.' then
      if rest.head?.any Char.isDigit then number first rest else ofMark .dot 0
    else if first.isDigit then number first rest
    else if startsName first then name first rest
    else ⟨.stray first, 0, some (.unexpectedCharacter first)⟩

end Lexeme

end Animatic.Script
