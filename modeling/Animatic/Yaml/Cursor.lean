/-!
# Places in a document text

A document text is read from front to back; a `Cursor` is a place in it. Line breaks are brought to
one form before reading, so every break is a single character.

* `sourceCharacters?` refuses characters that a document text may not hold.
* `Cursor.length_advance_lt`: moving over a character leaves a shorter text.
-/

namespace Animatic.Yaml

/-- Whether a document text may hold a character. -/
def isPermitted (c : Char) : Bool :=
  let n := c.toNat
  n == 0x9 || n == 0xa || n == 0xd || (0x20 ≤ n && n ≤ 0x7e) || n == 0x85
    || (0xa0 ≤ n && n ≤ 0xfffd) || 0x10000 ≤ n

/-- A text in which a carriage return, one with a line feed, and a next-line character are each
written as a line feed. -/
def unifyBreaks : List Char → List Char
  | [] => []
  | '\r' :: '\n' :: rest => '\n' :: unifyBreaks rest
  | c :: rest => (if c = '\r' ∨ c = '\u0085' then '\n' else c) :: unifyBreaks rest

/-- The characters of a document text behind its byte order mark, if each of them is permitted. -/
def sourceCharacters? (text : String) : Option (List Char) :=
  let characters :=
    match text.toList with
    | '\ufeff' :: rest => rest
    | all => all
  if characters.all isPermitted then some (unifyBreaks characters) else none

/-- A space or a tab. -/
def isBlank (c : Char) : Bool := c == ' ' || c == '\t'

/-- A line feed, a line separator or a paragraph separator. -/
def isBreak (c : Char) : Bool := c == '\n' || c == '\u2028' || c == '\u2029'

/-- Whether a blank, a break or the end of the text is in front. -/
def atGap : List Char → Bool
  | [] => true
  | c :: _ => isBlank c || isBreak c

/-- Whether a break or the end of the text is in front. -/
def atLineEnd : List Char → Bool
  | [] => true
  | c :: _ => isBreak c

/-- A place in a text: what follows it, and where it is, counted from zero. -/
structure Cursor where
  rest : List Char
  line : Nat
  column : Nat
  /-- The number of characters in front of the place. -/
  passed : Nat

namespace Cursor

/-- The front of a text. -/
def ofText (text : List Char) : Cursor := ⟨text, 0, 0, 0⟩

/-- The place behind the next character. -/
def advance (c : Cursor) : Cursor :=
  match c.rest with
  | [] => c
  | x :: rest =>
    if isBreak x then ⟨rest, c.line + 1, 0, c.passed + 1⟩
    else ⟨rest, c.line, c.column + 1, c.passed + 1⟩

/-- The place behind the next `n` characters. -/
def skip : Nat → Cursor → Cursor
  | 0, c => c
  | n + 1, c => skip n c.advance

/-- Whether a blank, a break or the end of the text comes `n` characters ahead. -/
def isGapAhead (c : Cursor) (n : Nat) : Bool := atGap (c.rest.drop n)

theorem length_advance_le (c : Cursor) : c.advance.rest.length ≤ c.rest.length := by
  unfold advance
  split
  · simp
  · split <;> simp_all

theorem length_advance_lt {c : Cursor} {x : Char} {more : List Char} (h : c.rest = x :: more) :
    c.advance.rest.length < c.rest.length := by
  unfold advance
  simp only [h]
  split <;> simp

theorem length_skip_le (n : Nat) (c : Cursor) : (c.skip n).rest.length ≤ c.rest.length := by
  induction n generalizing c with
  | zero => simp [skip]
  | succ n ih => exact Nat.le_trans (ih c.advance) c.length_advance_le

theorem length_skip_lt {c : Cursor} {x : Char} {more : List Char} (h : c.rest = x :: more)
    (n : Nat) : (c.skip (n + 1)).rest.length < c.rest.length :=
  Nat.lt_of_le_of_lt (length_skip_le n c.advance) (length_advance_lt h)

/-- The place behind the characters in front that `p` holds of. -/
def skipWhile (p : Char → Bool) (c : Cursor) : Cursor := c.skip (c.rest.takeWhile p).length

/-- The place behind the blanks in front. -/
def skipBlanks (c : Cursor) : Cursor := c.skipWhile isBlank

/-- The end of the line. -/
def toLineEnd (c : Cursor) : Cursor := c.skipWhile (!isBreak ·)

/-- The end of the line, if only blanks and a comment stand before it. -/
def toBareLineEnd? (c : Cursor) : Option Cursor :=
  let behind := c.skipBlanks
  if behind.rest.head? = some '#' then some behind.toLineEnd
  else if atLineEnd behind.rest then some behind
  else none

/-- Whether a line of three marks, such as `---`, starts here. -/
def isRuler (mark : Char) (c : Cursor) : Bool :=
  c.column == 0 && c.rest.take 3 == [mark, mark, mark] && c.isGapAhead 3

/-- Whether a document starts or ends here. -/
def isDocumentMark (c : Cursor) : Bool := c.isRuler '-' || c.isRuler '.'

end Cursor

end Animatic.Yaml
