import Animatic.Number.Reader
import Animatic.Yaml.Cursor

/-!
# Scalar texts

A scalar is written plain, quoted or as a block. A plain or quoted one may run over several lines,
which are then folded: one line break between two words is a space, and further ones are kept.

* `Gap.text` is the folding rule.
* `plain?`, `quoted?` and `block?` read a scalar and give the place behind it.
-/

namespace Animatic.Yaml

/-- How a scalar is written. -/
inductive ScalarStyle where
  | plain
  | quoted
  | literal
  | folded
  deriving DecidableEq

/-- What stands between two words: blanks, or line breaks with blanks around them. The first break
is absent when it is escaped. -/
inductive Gap where
  | blanks (characters : List Char)
  | breaks (first : Option Char) (more : List Char)

namespace Gap

/-- Nothing between two characters. -/
def none : Gap := .blanks []

/-- Whether nothing stands in the gap. -/
def isEmpty : Gap → Bool
  | blanks characters => characters.isEmpty
  | breaks .. => false

/-- Whether the gap has a line break. -/
def isBroken : Gap → Bool
  | blanks _ => false
  | breaks .. => true

/-- The gap with a blank at its end. Blanks beside a line break do not count. -/
def addBlank (c : Char) : Gap → Gap
  | blanks characters => blanks (characters ++ [c])
  | breaks first more => breaks first more

/-- The gap with a line break at its end. -/
def addBreak (c : Char) : Gap → Gap
  | blanks _ => breaks (some c) []
  | breaks first more => breaks first (more ++ [c])

/-- What a gap stands for: a single line feed is a space, and the first of several is dropped. -/
def text : Gap → List Char
  | blanks characters => characters
  | breaks (some '\n') [] => [' ']
  | breaks (some '\n') more => more
  | breaks (some first) more => first :: more
  | breaks .none more => more

end Gap

/-- A scalar that was read, and the place behind it. -/
structure ScalarReading where
  text : List Char
  /-- Whether a line break was passed behind the last word. -/
  passedBreak : Bool
  cursor : Cursor

/-- The marks of flow collections. -/
def isFlowMark (c : Char) : Bool :=
  c == ',' || c == '[' || c == ']' || c == '\x7b' || c == '\x7d'

/-- Reads on in a plain scalar behind `text` and a gap. Outside flow collections it ends at a line
that starts left of `indent`; it also ends at a comment, at a document mark and at a `:` before a
gap. -/
def plainFrom? (flow : Bool) (indent : Nat) (text : List Char) (gap : Gap) (c : Cursor) :
    Option ScalarReading :=
  let stop : ScalarReading := ⟨text, gap.isBroken, c⟩
  match _ : c.rest with
  | [] => some stop
  | x :: more =>
    if isBlank x then
      if gap.isBroken && c.column < indent && x == '\t' then none
      else plainFrom? flow indent text (gap.addBlank x) c.advance
    else if isBreak x then plainFrom? flow indent text (gap.addBreak x) c.advance
    else if !gap.isEmpty && !flow && c.column < indent then some stop
    else if (text.isEmpty || !gap.isEmpty) && (c.isDocumentMark || x == '#') then some stop
    else if flow && x == ':' && more.head?.any (fun y => isFlowMark y || y == '?') then none
    else if x == ':' && atGap more || flow && isFlowMark x then some stop
    else plainFrom? flow indent (text ++ gap.text ++ [x]) .none c.advance
termination_by c.rest.length
decreasing_by all_goals exact Cursor.length_advance_lt ‹_›

/-- Reads a plain scalar. -/
def plain? (flow : Bool) (indent : Nat) (c : Cursor) : Option ScalarReading :=
  plainFrom? flow indent [] .none c

/-- The value of a hexadecimal digit. -/
def hexDigit? (c : Char) : Option Nat :=
  if '0' ≤ c ∧ c ≤ '9' then some (c.toNat - '0'.toNat)
  else if 'a' ≤ c ∧ c ≤ 'f' then some (c.toNat - 'a'.toNat + 10)
  else if 'A' ≤ c ∧ c ≤ 'F' then some (c.toNat - 'A'.toNat + 10)
  else none

/-- The character whose number the given hexadecimal digits write. -/
def hexCharacter? (digits : List Char) : Option Char := do
  let values ← digits.mapM hexDigit?
  let number := values.foldl (16 * · + ·) 0
  if number.isValidChar then some (Char.ofNat number) else none

/-- What an escape stands for, given the characters behind its backslash, and how many of those it
takes. -/
def escape? : List Char → Option (Char × Nat)
  | [] => none
  | mark :: rest =>
    let hex (digits : Nat) : Option (Char × Nat) :=
      if rest.length < digits then none
      else (hexCharacter? (rest.take digits)).map (·, digits + 1)
    match mark with
    | '0' => some ('\x00', 1)
    | 'a' => some ('\x07', 1)
    | 'b' => some ('\x08', 1)
    | 't' => some ('\t', 1)
    | '\t' => some ('\t', 1)
    | 'n' => some ('\n', 1)
    | 'v' => some ('\x0b', 1)
    | 'f' => some ('\x0c', 1)
    | 'r' => some ('\r', 1)
    | 'e' => some ('\x1b', 1)
    | ' ' => some (' ', 1)
    | '"' => some ('"', 1)
    | '/' => some ('/', 1)
    | '\\' => some ('\\', 1)
    | 'N' => some ('\u0085', 1)
    | '_' => some ('\u00a0', 1)
    | 'L' => some ('\u2028', 1)
    | 'P' => some ('\u2029', 1)
    | 'x' => hex 2
    | 'u' => hex 4
    | 'U' => hex 8
    | _ => none

/-- Reads on in a quoted scalar behind `text` and a gap, up to the closing quote. A doubled single
quote stands for one; escapes hold between double quotes only. -/
def quotedFrom? (quote : Char) (text : List Char) (gap : Gap) (c : Cursor) : Option ScalarReading :=
  match _ : c.rest with
  | [] => none
  | x :: more =>
    if c.isDocumentMark then none
    else if isBlank x then quotedFrom? quote text (gap.addBlank x) c.advance
    else if isBreak x then quotedFrom? quote text (gap.addBreak x) c.advance
    else
      let text := text ++ gap.text
      if quote == '\'' && x == '\'' && more.head? == some '\'' then
        quotedFrom? quote (text ++ ['\'']) .none (c.skip 2)
      else if x == quote then some ⟨text, false, c.advance⟩
      else if quote == '"' && x == '\\' then
        if more.head?.any isBreak then quotedFrom? quote text (.breaks none []) (c.skip 2)
        else
          match escape? more with
          | none => none
          | some (meant, length) => quotedFrom? quote (text ++ [meant]) .none (c.skip (length + 1))
      else quotedFrom? quote (text ++ [x]) .none c.advance
termination_by c.rest.length
decreasing_by
  all_goals first
    | exact Cursor.length_advance_lt ‹_›
    | exact Cursor.length_skip_lt ‹_› _

/-- Reads a quoted scalar whose opening quote is in front. -/
def quoted? (quote : Char) (c : Cursor) : Option ScalarReading :=
  quotedFrom? quote [] .none c.advance

/-- What becomes of the line breaks at the end of a block. -/
inductive Chomping where
  | strip
  | clip
  | keep

/-- The head of a block behind its mark: an indentation and a chomping, each at most once. -/
def blockHead? (indent : Option Nat) (chomping : Option Chomping) (c : Cursor) :
    Option (Option Nat × Chomping × Cursor) :=
  match _ : c.rest with
  | [] => some (indent, chomping.getD .clip, c)
  | x :: _ =>
    if x == '-' && chomping.isNone then blockHead? indent (some .strip) c.advance
    else if x == '+' && chomping.isNone then blockHead? indent (some .keep) c.advance
    else if '1' ≤ x && x ≤ '9' && indent.isNone then
      blockHead? (some (x.toNat - '0'.toNat)) chomping c.advance
    else (c.toBareLineEnd?).map fun c => (indent, chomping.getD .clip, c.advance)
termination_by c.rest.length
decreasing_by all_goals exact Cursor.length_advance_lt ‹_›

/-- Passes the empty lines in front of a block whose indentation is yet to be found, and gives the
widest indentation among them and the first line with content. -/
def blockStart? (widest : Nat) (breaks : List Char) (c : Cursor) :
    Option (Nat × List Char × Cursor) :=
  let widest := max widest c.column
  match _ : c.rest with
  | [] => some (widest, breaks, c)
  | x :: _ =>
    if x == ' ' then blockStart? widest breaks c.advance
    else if x == '\t' then none
    else if isBreak x then blockStart? widest (breaks ++ [x]) c.advance
    else some (widest, breaks, c)
termination_by c.rest.length
decreasing_by all_goals exact Cursor.length_advance_lt ‹_›

/-- A block as far as it was read: its text, the break behind the last line, the empty lines behind
that, and whether the last line starts with a blank. -/
structure Block where
  text : List Char
  lineBreak : List Char
  emptyLines : List Char
  startsBlank : Bool

/-- The block with the start of a new line. In a folded block one break between two lines that do
not start with a blank is a space. -/
def Block.startLine (folds : Bool) (x : Char) (block : Block) : Block :=
  let between :=
    if folds && block.lineBreak == ['\n'] && !block.startsBlank && !isBlank x then
      if block.emptyLines.isEmpty then [' '] else block.emptyLines
    else block.lineBreak ++ block.emptyLines
  ⟨block.text ++ between ++ [x], [], [], isBlank x⟩

/-- The text of a finished block. -/
def Block.finish (chomping : Chomping) (block : Block) : List Char :=
  match chomping with
  | .strip => block.text
  | .clip => block.text ++ block.lineBreak
  | .keep => block.text ++ block.lineBreak ++ block.emptyLines

/-- Reads on in a block with the given indentation. -/
def blockFrom? (folds : Bool) (indent : Nat) (chomping : Chomping) (inLine : Bool) (block : Block)
    (c : Cursor) : Option ScalarReading :=
  let stop : ScalarReading := ⟨block.finish chomping, true, c⟩
  match _ : c.rest with
  | [] => some stop
  | x :: _ =>
    if inLine then
      if isBreak x then
        blockFrom? folds indent chomping false { block with lineBreak := [x] } c.advance
      else
        blockFrom? folds indent chomping true { block with text := block.text ++ [x] } c.advance
    else if x == ' ' && c.column < indent then
      blockFrom? folds indent chomping false block c.advance
    else if x == '\t' && c.column < indent then none
    else if isBreak x then
      blockFrom? folds indent chomping false { block with emptyLines := block.emptyLines ++ [x] }
        c.advance
    else if c.column == indent then
      blockFrom? folds indent chomping true (block.startLine folds x) c.advance
    else some stop
termination_by c.rest.length
decreasing_by all_goals exact Cursor.length_advance_lt ‹_›

/-- Reads a block scalar whose mark is in front; `parent` is one more than the column of the
collection around it. -/
def block? (folds : Bool) (parent : Nat) (c : Cursor) : Option ScalarReading := do
  let (indent, chomping, c) ← blockHead? none none c.advance
  match indent with
  | some extra =>
    blockFrom? folds (parent - 1 + extra) chomping false ⟨[], [], [], false⟩ c
  | none =>
    let (widest, breaks, c) ← blockStart? 0 [] c
    blockFrom? folds (max widest (max parent 1)) chomping false ⟨[], [], breaks, false⟩ c

end Animatic.Yaml
