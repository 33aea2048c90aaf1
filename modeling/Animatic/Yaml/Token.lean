import Animatic.Yaml.Scalar

/-!
# Tokens of a document

Scanning turns the indentation of a text into tokens that open and close block collections, so that
the reader of nodes need not know of lines.

* A mapping key is recognised only at the `:` behind it. A place for the tokens in front of it is
  therefore kept in the output from where the key may start (`PendingKey.slot`) and filled at the
  `:`.
* Such a key stands on one line and takes at most 1024 characters (`PendingKey.isStale`).
* `tokens?` scans a whole text.
-/

namespace Animatic.Yaml

/-- A directive in front of a document. -/
inductive Directive where
  | version (major minor : Nat)
  | tag (handle expansion : String)

/-- A token. A collection is closed by a token of its own kind. -/
inductive Token where
  | directive (directive : Directive)
  | documentStart
  | documentEnd
  | blockSequence
  | blockMapping
  | blockEnd
  | flowSequence
  | flowSequenceEnd
  | flowMapping
  | flowMappingEnd
  | entry
  | comma
  | key
  | value
  | reference (name : String)
  | anchor (name : String)
  | tag (handle suffix : String)
  | scalar (style : ScalarStyle) (text : String)

/-- Something that is the key of a mapping if a `:` follows. -/
structure PendingKey where
  /-- The place in the output where its tokens go. -/
  slot : Nat
  /-- Whether nothing but a key can stand here. -/
  required : Bool
  start : Cursor

/-- Whether a `:` comes too late for a key. -/
def PendingKey.isStale (key : PendingKey) (c : Cursor) : Bool :=
  key.start.line < c.line || key.start.passed + 1024 < c.passed

/-- The state of a scan. -/
structure Scanner where
  cursor : Cursor
  /-- The tokens so far, in groups; the group of a pending key is empty. -/
  output : Array (List Token)
  /-- The columns of the open block collections, innermost first. -/
  columns : List Nat
  /-- What may be a key in the innermost collection. -/
  pending : Option PendingKey
  /-- The same for the collections around each open flow collection. -/
  outer : List (Option PendingKey)
  /-- Whether a key may start here. -/
  allowsKey : Bool

namespace Scanner

/-- The scan at the front of a text. -/
def ofText (text : List Char) : Scanner := ⟨.ofText text, #[], [], none, [], true⟩

/-- Whether a flow collection is open. -/
def inFlow (s : Scanner) : Bool := !s.outer.isEmpty

/-- The least column of a further line of a scalar. -/
def margin (s : Scanner) : Nat := s.columns.head?.elim 0 (· + 1)

/-- Puts a token out. -/
def emit (token : Token) (s : Scanner) : Scanner := { s with output := s.output.push [token] }

/-- Moves over `n` characters. -/
def pass (n : Nat) (s : Scanner) : Scanner := { s with cursor := s.cursor.skip n }

/-- Says whether a key may start next. -/
def allowKey (allowed : Bool) (s : Scanner) : Scanner := { s with allowsKey := allowed }

/-- Closes the block collections that `closes` holds of, innermost first. -/
def closeWhile (closes : Nat → Bool) (s : Scanner) : Scanner :=
  if s.inFlow then s
  else
    let closed := (s.columns.takeWhile closes).length
    { s with
      columns := s.columns.drop closed
      output := s.output.push (List.replicate closed .blockEnd) }

/-- Closes the block collections to the right of a column. -/
def closeBlocks (column : Nat) (s : Scanner) : Scanner := s.closeWhile (column < ·)

/-- Closes all block collections. -/
def closeAll (s : Scanner) : Scanner := s.closeWhile fun _ => true

/-- Whether a block collection at a column would be a new one. -/
def opensBlock (column : Nat) (s : Scanner) : Bool :=
  !s.inFlow && s.columns.head?.all (· < column)

/-- Opens a block collection at a column unless it is open already. -/
def openBlock (token : Token) (column : Nat) (s : Scanner) : Scanner :=
  if s.opensBlock column then { s.emit token with columns := column :: s.columns } else s

/-- Gives up what may have been a key, unless only a key can stand there. -/
def dropKey? (s : Scanner) : Option Scanner :=
  if s.pending.any (·.required) then none else some { s with pending := none }

/-- Keeps a place for a key that may start here. -/
def saveKey? (s : Scanner) : Option Scanner :=
  if s.allowsKey then do
    let s ← s.dropKey?
    let required := !s.inFlow && s.columns.head? == some s.cursor.column
    return { s with
      pending := some ⟨s.output.size, required, s.cursor⟩
      output := s.output.push [] }
  else some s

/-- Gives up a pending key that is stale. -/
def refresh? (c : Cursor) : Option PendingKey → Option (Option PendingKey)
  | none => some none
  | some key =>
    if key.isStale c then if key.required then none else some none
    else some (some key)

/-- Gives up all pending keys that are stale. -/
def dropStaleKeys? (s : Scanner) : Option Scanner := do
  let pending ← refresh? s.cursor s.pending
  let outer ← s.outer.mapM (refresh? s.cursor)
  return { s with pending, outer }

/-- The place of the next token behind white space and comments, and whether a key may start there.
Outside flow collections a new line always allows one, and no tab may stand where a key may start.
-/
def nextPlace (inFlow : Bool) (allowsKey inComment : Bool) (c : Cursor) : Cursor × Bool :=
  match _ : c.rest with
  | [] => (c, allowsKey)
  | x :: _ =>
    if isBreak x then nextPlace inFlow (allowsKey || !inFlow) false c.advance
    else if inComment || x == '#' then nextPlace inFlow allowsKey true c.advance
    else if x == ' ' || x == '\t' && (inFlow || !allowsKey) then
      nextPlace inFlow allowsKey false c.advance
    else (c, allowsKey)
termination_by c.rest.length
decreasing_by all_goals exact Cursor.length_advance_lt ‹_›

/-- Moves to the next token. -/
def toNextToken (s : Scanner) : Scanner :=
  let (cursor, allowsKey) := nextPlace s.inFlow s.allowsKey false s.cursor
  { s with cursor, allowsKey }

/-- A letter, digit, underscore or hyphen, as in names of anchors. -/
def isNameCharacter (c : Char) : Bool := c.isAlphanum || c == '_' || c == '-'

/-- A character of a tag. -/
def isTagCharacter (c : Char) : Bool :=
  isNameCharacter c || ";/?:@&=+$.%!~*'()".toList.contains c

/-- The name of an anchor or a reference behind its mark, and the number of its characters. -/
def anchorName? (c : Cursor) : Option (String × Nat) :=
  let name := (c.rest.drop 1).takeWhile isNameCharacter
  let behind := c.rest.drop (name.length + 1)
  if name.isEmpty then none
  else if atGap behind || behind.head?.any ("?:,]\x7d%@\x60".toList.contains ·) then
    some (String.ofList name, name.length + 1)
  else none

/-- The handle in front of a tag: `!`, or a name between two of them. -/
def tagHandle? : List Char → Option (List Char)
  | '!' :: rest =>
    let name := rest.takeWhile isNameCharacter
    match rest.drop name.length with
    | '!' :: _ => some ('!' :: name ++ ['!'])
    | _ => some ['!']
  | _ => none

/-- A tag as a token, and the number of its characters. -/
def tag? (inFlow : Bool) (text : List Char) : Option (Token × Nat) := do
  let (token, length) ←
    match text with
    | '!' :: '<' :: rest =>
      let name := rest.takeWhile fun c => isTagCharacter c || c == ',' || c == '[' || c == ']'
      if name.isEmpty || (rest.drop name.length).head? != some '>' then none
      else some (Token.tag "" (String.ofList name), name.length + 3)
    | _ => do
      let handle ← tagHandle? text
      let suffix := (text.drop handle.length).takeWhile isTagCharacter
      if handle == ['!'] then
        if suffix.isEmpty then some (.tag "" "!", 1)
        else some (.tag "!" (String.ofList suffix), suffix.length + 1)
      else if suffix.isEmpty then none
      else some (.tag (String.ofList handle) (String.ofList suffix), handle.length + suffix.length)
  let behind := text.drop length
  if atGap behind || inFlow && behind.head? == some ',' then some (token, length) else none

/-- A directive and the place behind it. -/
def directive? (c : Cursor) : Option (Directive × Cursor) := do
  let name := (c.rest.drop 1).takeWhile isNameCharacter
  let c := c.skip (name.length + 1)
  if !atGap c.rest then none
  let c := c.skipBlanks
  let word := c.rest.takeWhile fun x => !isBlank x && !isBreak x
  match String.ofList name with
  | "YAML" =>
    let major := word.takeWhile Char.isDigit
    let minor := word.drop (major.length + 1)
    if major.isEmpty || minor.isEmpty || 9 < major.length || 9 < minor.length then none
    else if word[major.length]? != some '.' || minor.any (!·.isDigit) then none
    else some (.version (Number.digitsValue major) (Number.digitsValue minor), c.skip word.length)
  | "TAG" =>
    let handle ← tagHandle? word
    if handle.length != word.length then none
    let c := (c.skip word.length).skipBlanks
    let expansion := c.rest.takeWhile fun x => isTagCharacter x || x == ',' || x == '[' || x == ']'
    if expansion.isEmpty || !atGap (c.rest.drop expansion.length) then none
    else some (.tag (String.ofList handle) (String.ofList expansion), c.skip expansion.length)
  | _ => none

/-- A scalar that may be a key. -/
def scalar? (style : ScalarStyle) (read : Cursor → Option ScalarReading) (s : Scanner) :
    Option Scanner := do
  let s ← s.saveKey?
  let reading ← read s.cursor
  return { s.emit (.scalar style (String.ofList reading.text)) with
    cursor := reading.cursor, allowsKey := reading.passedBreak }

/-- A block scalar, which is never a key. -/
def blockScalar? (style : ScalarStyle) (s : Scanner) : Option Scanner := do
  let s ← s.dropKey?
  let reading ← block? (style == .folded) s.margin s.cursor
  return { s.emit (.scalar style (String.ofList reading.text)) with
    cursor := reading.cursor, allowsKey := true }

/-- A mark between or in front of documents. -/
def documentMark? (token : Token) (s : Scanner) : Option Scanner :=
  (s.closeAll.dropKey?).map fun s => ((s.allowKey false).pass 3).emit token

/-- The start of a flow collection. -/
def openFlow? (token : Token) (s : Scanner) : Option Scanner :=
  (s.saveKey?).map fun s =>
    { (s.allowKey true).pass 1 |>.emit token with pending := none, outer := s.pending :: s.outer }

/-- The end of a flow collection. -/
def closeFlow? (token : Token) (s : Scanner) : Option Scanner :=
  (s.dropKey?).map fun s =>
    { (s.allowKey false).pass 1 |>.emit token with
      pending := s.outer.head?.join, outer := s.outer.drop 1 }

/-- A comma between the entries of a flow collection. -/
def comma? (s : Scanner) : Option Scanner :=
  (s.dropKey?).map fun s => ((s.allowKey true).pass 1).emit .comma

/-- The mark of an entry of a block sequence. -/
def entry? (s : Scanner) : Option Scanner :=
  if !s.inFlow && !s.allowsKey then none
  else ((s.openBlock .blockSequence s.cursor.column).dropKey?).map fun s =>
    ((s.allowKey true).pass 1).emit .entry

/-- The mark in front of a key. -/
def key? (s : Scanner) : Option Scanner :=
  if !s.inFlow && !s.allowsKey then none
  else ((s.openBlock .blockMapping s.cursor.column).dropKey?).map fun s =>
    ((s.allowKey !s.inFlow).pass 1).emit .key

/-- The mark in front of a value: it makes what stands before it a key. -/
def value? (s : Scanner) : Option Scanner :=
  match s.pending with
  | some key =>
    let opens := s.opensBlock key.start.column
    let group := if opens then [Token.blockMapping, .key] else [Token.key]
    some (({ s with
      output := s.output.modify key.slot fun _ => group
      columns := if opens then key.start.column :: s.columns else s.columns
      pending := none
      allowsKey := false }.pass 1).emit .value)
  | none =>
    if !s.inFlow && !s.allowsKey then none
    else
      let s := s.openBlock .blockMapping s.cursor.column
      some (((s.allowKey !s.inFlow).pass 1).emit .value)

/-- A token of several characters that may stand in front of a key. -/
def named? (read : Scanner → Option (Token × Nat)) (s : Scanner) : Option Scanner := do
  let s ← s.saveKey?
  let (token, length) ← read s
  return ((s.allowKey false).pass length).emit token

/-- Scans the token that starts with `x`. -/
def token? (x : Char) (s : Scanner) : Option Scanner :=
  let beforeGap := s.cursor.isGapAhead 1
  if s.cursor.column == 0 && x == '%' then do
    let s ← s.closeAll.dropKey?
    let (directive, cursor) ← directive? s.cursor
    let cursor ← cursor.toBareLineEnd?
    return { s.emit (.directive directive) with cursor := cursor.advance, allowsKey := false }
  else if s.cursor.isRuler '-' then s.documentMark? .documentStart
  else if s.cursor.isRuler '.' then s.documentMark? .documentEnd
  else if x == '-' && beforeGap then s.entry?
  else if x == '?' && (s.inFlow || beforeGap) then s.key?
  else if x == ':' && (s.inFlow || beforeGap) then s.value?
  else
    match x with
    | '[' => s.openFlow? .flowSequence
    | ']' => s.closeFlow? .flowSequenceEnd
    | '\x7b' => s.openFlow? .flowMapping
    | '\x7d' => s.closeFlow? .flowMappingEnd
    | ',' => s.comma?
    | '*' => s.named? fun s => (anchorName? s.cursor).map fun (name, n) => (.reference name, n)
    | '&' => s.named? fun s => (anchorName? s.cursor).map fun (name, n) => (.anchor name, n)
    | '!' => s.named? fun s => tag? s.inFlow s.cursor.rest
    | '|' => if s.inFlow then none else s.blockScalar? .literal
    | '>' => if s.inFlow then none else s.blockScalar? .folded
    | '\'' => s.scalar? .quoted (quoted? x)
    | '"' => s.scalar? .quoted (quoted? x)
    | '%' => none
    | '@' => none
    | '\x60' => none
    | '\t' => none
    | _ => s.scalar? .plain (plain? s.inFlow s.margin)

/-- Scans to the end of the text. Each token takes at least one character, so as many rounds as the
text has characters, and one for its end, are enough. -/
def run? : Nat → Scanner → Option (List Token)
  | 0, _ => none
  | rounds + 1, s => do
    let s ← s.toNextToken.dropStaleKeys?
    let s := s.closeBlocks s.cursor.column
    match s.cursor.rest with
    | [] => (s.closeAll.dropKey?).map fun s => s.output.toList.flatten
    | x :: _ => run? rounds (← s.token? x)

end Scanner

/-- The tokens of a text, if it can be scanned. -/
def tokens? (text : List Char) : Option (List Token) :=
  (Scanner.ofText text).run? (text.length + 1)

end Animatic.Yaml
