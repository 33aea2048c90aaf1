import Animatic.Number.Layout
import Animatic.Yaml.Cursor

/-!
# Writing scalars

A text is written plain where that reads back as the same text, and quoted otherwise. Numbers are
written with the fewest digits that read back.

* `textValue` writes a text as the value of an entry of a mapping that is not indented.
* `isAmbiguous` tells which texts some reader might take for something else than a text.
-/

namespace Animatic.Yaml

/-- Numbers of binary64: an exponent is used from `1e16` up and below `1e-5`. -/
def layout : Number.Layout := ⟨".0", some 16, some (-5)⟩

/-- Numbers of binary32: an exponent is used from `1e13` up and below `1e-6`. -/
def layout32 : Number.Layout := ⟨".0", some 13, some (-6)⟩

open Float.Model (Format UnpackedFloat)

/-- The text of a number; one that is not finite has a name that starts with a point. -/
def numberText (layout : Number.Layout) (format : Format) : UnpackedFloat → String
  | .notANumber => ".nan"
  | .infinity sign => Number.signText sign ++ ".inf"
  | x => layout.text format x

/-- The text of a binary64 number. -/
def floatValue (x : Float) : String := numberText layout .binary64 (Number.exact x)

/-- The text of a binary32 number. -/
def float32Value (x : Float32) : String := numberText layout32 .binary32 (Number.exact32 x)

/-- Words that stand for a truth value, for nothing or for no number. -/
def reservedWords : List String :=
  ["y", "yes", "n", "no", "on", "off", "true", "false", "null", "nil", "~", "nan"]

/-- Whether some reader might not take a plain text for a text. -/
def isAmbiguous (text : String) : Bool :=
  match text.toList with
  | [] => true
  | c :: _ =>
    c.isDigit || c == '-' || c == '.' || c == '+'
      || reservedWords.contains (String.ofList (text.toList.map Char.toLower))

/-- Whether a character can be written as it is. -/
def isPrintable (c : Char) : Bool :=
  let n := c.toNat
  n == 0xa || (0x20 ≤ n && n ≤ 0x7e) || (0xa0 ≤ n && n ≤ 0xfffd && n != 0xfeff) || 0x10000 ≤ n

/-- Marks that a plain text does not start with. -/
def leadingMarks : List Char := "#,[]\x7b\x7d&*!|>'\"%@\x60".toList

/-- Whether a character makes a text more than a plain text, given what stands before and behind
it. -/
def isIndicator (isFirst afterGap : Bool) (c : Char) (rest : List Char) : Bool :=
  if isFirst then
    leadingMarks.contains c || (c == '?' || c == ':' || c == '-') && atGap rest
  else c == ':' && atGap rest || c == '#' && afterGap

/-- Whether some character behind the first ones makes a text more than a plain text. -/
def hasIndicator (isFirst afterGap : Bool) : List Char → Bool
  | [] => false
  | c :: rest =>
    isIndicator isFirst afterGap c rest || hasIndicator false (isBlank c || isBreak c) rest

/-- Whether two characters that `p` and `q` hold of follow each other. -/
def hasPair (p q : Char → Bool) : List Char → Bool
  | a :: b :: rest => p a && q b || hasPair p q (b :: rest)
  | _ => false

/-- Whether a text has a character or a blank before a break that only escapes can write. -/
def needsEscapes (text : List Char) : Bool :=
  text.any (!isPrintable ·) || hasPair (· == ' ') isBreak text

/-- Whether a text may stand without quotes. -/
def mayBePlain (text : List Char) : Bool :=
  let isEdge (c : Char) : Bool := c == ' ' || isBreak c
  !(text.head?.any isEdge || text.getLast?.any isEdge || text.any isBreak || needsEscapes text
    || text.take 3 == "---".toList || text.take 3 == "...".toList || hasIndicator true true text)

/-- Whether a text may stand between single quotes. -/
def mayBeQuoted (text : List Char) : Bool := !(hasPair isBreak (· == ' ') text || needsEscapes text)

/-- Whether a text may stand as a block. -/
def mayBeBlock (text : List Char) : Bool := !(text.getLast? == some ' ' || needsEscapes text)

/-- A number in hexadecimal digits, at least `width` of them. -/
def hexText (width n : Nat) : String :=
  let digits := (Nat.toDigits 16 n).map Char.toUpper
  String.ofList (List.replicate (width - digits.length) '0' ++ digits)

/-- The escape of a character. -/
def escapeText (c : Char) : String :=
  match c with
  | '\x00' => "\\0"
  | '\x07' => "\\a"
  | '\x08' => "\\b"
  | '\t' => "\\t"
  | '\n' => "\\n"
  | '\x0b' => "\\v"
  | '\x0c' => "\\f"
  | '\r' => "\\r"
  | '\x1b' => "\\e"
  | '"' => "\\\""
  | '\\' => "\\\\"
  | '\u0085' => "\\N"
  | '\u2028' => "\\L"
  | '\u2029' => "\\P"
  | _ =>
    let n := c.toNat
    if n ≤ 0xff then "\\x" ++ hexText 2 n
    else if n ≤ 0xffff then "\\u" ++ hexText 4 n
    else "\\U" ++ hexText 8 n

/-- A text between double quotes. -/
def doubleQuoted (text : List Char) : String :=
  let character (c : Char) : String :=
    if !isPrintable c || isBreak c || c == '"' || c == '\\' then escapeText c else c.toString
  "\"" ++ String.join (text.map character) ++ "\""

/-- A text between single quotes, each single quote in it doubled. -/
def singleQuoted (text : List Char) : String :=
  "'" ++ String.ofList (text.flatMap fun c => if c = '\'' then [c, c] else [c]) ++ "'"

/-- The lines of a block, each indented by two spaces unless it is empty. -/
def blockLines (atLineStart : Bool) : List Char → List Char
  | [] => []
  | c :: rest =>
    if isBreak c then c :: blockLines true rest
    else (if atLineStart then [' ', ' ', c] else [c]) ++ blockLines false rest

/-- A text as a literal block, without the end of its last line. -/
def literalBlock (text : List Char) : String :=
  let indentation := if text.head?.any fun c => c == ' ' || isBreak c then "2" else ""
  let chomping :=
    match text.reverse with
    | last :: before =>
      if !isBreak last then "-" else if before.head?.all isBreak then "+" else ""
    | [] => "-"
  let lines := blockLines true text
  "|" ++ indentation ++ chomping ++ "\n"
    ++ String.ofList (if lines.getLast? = some '\n' then lines.dropLast else lines)

/-- A text as the value of an entry of a mapping that is not indented, without the end of its
line. -/
def textValue (text : String) : String :=
  let characters := text.toList
  if characters.contains '\n' then
    if mayBeBlock characters then literalBlock characters else doubleQuoted characters
  else if !isAmbiguous text && mayBePlain characters then text
  else if mayBeQuoted characters then singleQuoted characters
  else doubleQuoted characters

end Animatic.Yaml
