import Animatic.Yaml.Token

/-!
# Document trees

A document is a tree of scalars, sequences and mappings. A reference stands for the node of its
anchor, so a tree has none, except for a reference from inside the node itself (`Node.unfinished`).

* `document?` reads a text that holds at most one document.
-/

namespace Animatic.Yaml

/-- A node of a document. -/
inductive Node where
  | scalar (tag : Option String) (style : ScalarStyle) (text : String)
  | sequence (items : List Node)
  | mapping (entries : List (Node × Node))
  /-- A reference to a node that is still being read. -/
  | unfinished

/-- What stands where a node is left out. -/
def Node.absent : Node := .scalar none .plain ""

/-- The state of a reader of nodes. -/
structure NodeReader where
  tokens : List Token
  /-- The anchors, last one first. -/
  anchors : List (String × Node)
  /-- What the handles of tags stand for. -/
  handles : List (String × String)

/-- A reading of tokens as nodes. -/
abbrev ReadNode := StateT NodeReader Option

namespace ReadNode

/-- The token in front. -/
def front : ReadNode (Option Token) := return (← get).tokens.head?

/-- Passes the token in front. -/
def pass : ReadNode Unit := modify fun r => { r with tokens := r.tokens.drop 1 }

/-- The node that a reference means. -/
def refer (name : String) : ReadNode Node := do
  match (← get).anchors.lookup name with
  | some node => return node
  | none => failure

/-- The anchor in front. -/
def anchor? : ReadNode (Option String) := do
  match ← front with
  | some (.anchor name) => pass; return some name
  | _ => return none

/-- The tag in front, with its handle replaced by what it stands for. -/
def tag? : ReadNode (Option String) := do
  match ← front with
  | some (.tag "" suffix) => pass; return some suffix
  | some (.tag handle suffix) =>
    pass
    match (← get).handles.lookup handle with
    | some expansion => return some (expansion ++ suffix)
    | none => failure
  | _ => return none

/-- Notes an anchor, whose node is yet to be read. The result is its number. -/
def note (name : String) : ReadNode Nat := do
  let number := (← get).anchors.length
  modify fun r => { r with anchors := (name, .unfinished) :: r.anchors }
  return number

/-- Gives the anchor of a number its node. -/
def settle (number : Nat) (name : String) (node : Node) : ReadNode Unit :=
  modify fun r =>
    { r with anchors := r.anchors.set (r.anchors.length - 1 - number) (name, node) }

/-- Whether the token in front ends an entry of a block collection without a node. -/
def endsBlockEntry : Option Token → Bool
  | some .key => true
  | some .value => true
  | some .blockEnd => true
  | _ => false

/-- Whether the token in front ends a key in a flow collection without a node. -/
def endsFlowKey (closer : Token → Bool) : Option Token → Bool
  | some .value => true
  | some .comma => true
  | some token => closer token
  | none => false

/-- Whether the token in front ends a value in a flow collection without a node. -/
def endsFlowValue (closer : Token → Bool) : Option Token → Bool
  | some .comma => true
  | some token => closer token
  | none => false

/-- Whether a token closes a flow sequence. -/
def closesSequence : Token → Bool
  | .flowSequenceEnd => true
  | _ => false

/-- Whether a token closes a flow mapping. -/
def closesMapping : Token → Bool
  | .flowMappingEnd => true
  | _ => false

/-- The comma between two entries of a flow collection. -/
def takeComma : ReadNode Unit := do
  match ← front with
  | some .comma => pass
  | _ => failure

/-- A node that is left out behind its tag, where that is allowed. -/
def absent (tag : Option String) (allowed : Bool) : ReadNode Node :=
  if allowed then return .scalar tag .plain "" else failure

mutual

/-- A node. A block collection is read where `inBlock` allows it, and a block sequence without an
indentation of its own where `bare` does. -/
def node (inBlock bare : Bool) : Nat → ReadNode Node
  | 0 => failure
  | rounds + 1 => do
    if let some (.reference name) := ← front then
      pass
      return ← refer name
    let early ← anchor?
    let tag ← tag?
    let name? ← if early.isSome then pure early else anchor?
    match name? with
    | none => content inBlock bare tag tag.isSome rounds
    | some name =>
      let number ← note name
      let value ← content inBlock bare tag true rounds
      settle number name value
      return value

/-- The node behind its anchor and tag; it may be left out if it has one of them. -/
def content (inBlock bare : Bool) (tag : Option String) (mayBeAbsent : Bool) :
    Nat → ReadNode Node
  | 0 => failure
  | rounds + 1 => do
    match ← front with
    | some (.scalar style text) => pass; return .scalar tag style text
    | some .flowSequence => pass; return .sequence (← flowItems true rounds)
    | some .flowMapping => pass; return .mapping (← flowEntries true rounds)
    | some .blockSequence =>
      if inBlock then
        pass
        return .sequence (← blockItems rounds)
      else absent tag mayBeAbsent
    | some .blockMapping =>
      if inBlock then
        pass
        return .mapping (← blockEntries rounds)
      else absent tag mayBeAbsent
    | some .entry =>
      if bare then return .sequence (← bareItems rounds) else absent tag mayBeAbsent
    | _ => absent tag mayBeAbsent

/-- The items of a block sequence. -/
def blockItems : Nat → ReadNode (List Node)
  | 0 => failure
  | rounds + 1 => do
    match ← front with
    | some .blockEnd => pass; return []
    | some .entry =>
      pass
      let item ←
        match ← front with
        | some .entry => pure Node.absent
        | some .blockEnd => pure Node.absent
        | _ => node true false rounds
      return item :: (← blockItems rounds)
    | _ => failure

/-- The items of a block sequence that stands at the indentation of the mapping around it. -/
def bareItems : Nat → ReadNode (List Node)
  | 0 => failure
  | rounds + 1 => do
    match ← front with
    | some .entry =>
      pass
      let next ← front
      let item ←
        match next with
        | some .entry => pure Node.absent
        | _ => if endsBlockEntry next then pure Node.absent else node true false rounds
      return item :: (← bareItems rounds)
    | _ => return []

/-- The entries of a block mapping. -/
def blockEntries : Nat → ReadNode (List (Node × Node))
  | 0 => failure
  | rounds + 1 => do
    match ← front with
    | some .blockEnd => pass; return []
    | some .key =>
      pass
      let key ← if endsBlockEntry (← front) then pure Node.absent else node true true rounds
      let value ←
        match ← front with
        | some .value =>
          pass
          if endsBlockEntry (← front) then pure Node.absent else node true true rounds
        | _ => pure Node.absent
      return (key, value) :: (← blockEntries rounds)
    | _ => failure

/-- The items of a flow sequence; an item with a `:` is a mapping of one entry. -/
def flowItems (isFirst : Bool) : Nat → ReadNode (List Node)
  | 0 => failure
  | rounds + 1 => do
    if let some .flowSequenceEnd := ← front then
      pass
      return []
    unless isFirst do takeComma
    match ← front with
    | some .flowSequenceEnd => pass; return []
    | some .key =>
      pass
      let key ←
        if endsFlowKey closesSequence (← front) then pass; pure Node.absent
        else node false false rounds
      let value ← flowValue closesSequence rounds
      return .mapping [(key, value)] :: (← flowItems false rounds)
    | _ =>
      let item ← node false false rounds
      return item :: (← flowItems false rounds)

/-- The entries of a flow mapping. -/
def flowEntries (isFirst : Bool) : Nat → ReadNode (List (Node × Node))
  | 0 => failure
  | rounds + 1 => do
    if let some .flowMappingEnd := ← front then
      pass
      return []
    unless isFirst do takeComma
    match ← front with
    | some .flowMappingEnd => pass; return []
    | some .key =>
      pass
      let key ←
        if endsFlowKey closesMapping (← front) then pure Node.absent else node false false rounds
      let value ← flowValue closesMapping rounds
      return (key, value) :: (← flowEntries false rounds)
    | _ =>
      let key ← node false false rounds
      return (key, .absent) :: (← flowEntries false rounds)

/-- The value of an entry of a flow collection. -/
def flowValue (closer : Token → Bool) : Nat → ReadNode Node
  | 0 => failure
  | rounds + 1 => do
    match ← front with
    | some .value =>
      pass
      if endsFlowValue closer (← front) then pure Node.absent else node false false rounds
    | _ => return .absent

end

end ReadNode

/-- The handles that every document has. -/
def commonHandles : List (String × String) := [("!", "!"), ("!!", "tag:yaml.org,2002:")]

/-- The handles that directives give a document. There may be one version, 1.1 or 1.2, and one
meaning for each handle. -/
def handles? : List Directive → Option (List (String × String))
  | [] => some commonHandles
  | .version major minor :: rest =>
    if major == 1 && (minor == 1 || minor == 2) && !rest.any (fun d => d matches .version ..) then
      handles? rest
    else none
  | .tag handle expansion :: rest =>
    if rest.any (fun | .tag other _ => other == handle | _ => false) then none
    else (handles? rest).map ((handle, expansion) :: ·)

/-- The directive that a token holds. -/
def Token.directive? : Token → Option Directive
  | directive d => some d
  | _ => none

/-- Whether a token can stand behind a document without a node. -/
def Token.isBetweenDocuments : Token → Bool
  | directive _ => true
  | documentStart => true
  | documentEnd => true
  | _ => false

/-- The root of the only document among some tokens; `none` if there is no document. At least one of
four rounds of reading takes a token, so four times as many rounds as tokens are enough. -/
def root? (tokens : List Token) : Option (Option Node) := do
  let directives := (tokens.takeWhile (·.directive?.isSome)).filterMap Token.directive?
  let behind := tokens.drop directives.length
  let rounds := 4 * tokens.length + 4
  let handles ← handles? directives
  let finish (reader : NodeReader) (node : Node) : Option (Option Node) :=
    if reader.tokens.all (· matches .documentEnd) then some (some node) else none
  match behind with
  | .documentStart :: rest =>
    let reader : NodeReader := ⟨rest, [], handles⟩
    if rest.head?.all Token.isBetweenDocuments then finish reader .absent
    else
      let (node, reader) ← (ReadNode.node true false rounds).run reader
      finish reader node
  | [] => if directives.isEmpty then some none else none
  | _ =>
    if directives.isEmpty then
      let (node, reader) ← (ReadNode.node true false rounds).run ⟨behind, [], handles⟩
      finish reader node
    else none

/-- The root of the only document of a text; `none` inside if the text holds no document. -/
def document? (text : String) : Option (Option Node) := do
  root? (← tokens? (← sourceCharacters? text))

end Animatic.Yaml
