import Animatic.Script.Basic

/-!
# A parser that moves over its tokens

The grammar takes tokens from the front of a list, and its types say that it takes some. The parser
here keeps all the tokens of a stream and moves a place over them, and it carries the mode that
tells whether a brace behind a name opens a constructor. Nothing but a budget bounds its recursion;
each call takes one of it. That it gets on, and reads what the grammar reads, is for proofs to say.

* `Parser`: the tokens, the place and the mode.
* `expression`, `statement`: the rules, one for each rule of the grammar.
* `spliceWithin`: the parts of a literal, for whose spans there are parsers of their own.
* `visits`: the statements that are tried one behind the other, until one does not fit or takes no
  token.
-/

namespace Animatic.Script

/-- A parser of a stream of tokens. -/
structure Parser where
  tokens : List Token
  /-- The number of tokens in front of the one that is looked at. -/
  place : Nat
  /-- Whether a brace behind a name opens a constructor. -/
  constructors : Bool

namespace Parser

/-- Why a rule halts. -/
inductive Halt where
  | problem (d : Diagnostic)
  /-- The budget is used up. -/
  | spent

/-- A rule: what a parser reads, and how it moves. -/
abbrev Parsing := EStateM Halt Parser

/-- A parser in front of some tokens; the end of the text is put behind them if it is missing. -/
def new (tokens : List Token) : Parser := ⟨(Reader.ofTokens tokens).tokens, 0, true⟩

/-! ## Tokens -/

/-- The token that stands `offset` tokens further, or the last one. -/
def peekAt (p : Parser) (offset : Nat) : Token :=
  p.tokens.getD (min (p.place + offset) (p.tokens.length - 1)) (.atEnd .start)

/-- The parser behind the token in front, which is not passed if it is the end of the text. -/
def advanced (p : Parser) : Parser :=
  if (p.peekAt 0).isFinish then p else { p with place := p.place + 1 }

/-- Looks at a token. -/
def peek (offset : Nat) : Parsing Token := return (← get).peekAt offset

/-- Whether a brace behind a name opens a constructor. -/
def mode : Parsing Bool := return (← get).constructors

/-- Moves behind a token. -/
def advance : Parsing Unit := modify advanced

/-- Whether a mark is in front. -/
def check (mark : Mark) : Parsing Bool := return (← peek 0).isMark mark

/-- Takes a mark if it is in front. -/
def eat (mark : Mark) : Parsing Bool := do
  if ← check mark then
    advance
    return true
  else return false

/-- Halts, as the token in front is not what is needed. -/
def refuse {α : Type} (what : String) : Parsing α := do
  let token ← peek 0
  throw (.problem ⟨.expected what token.description, token.position⟩)

/-- Takes a mark; `what` names it in a message. -/
def expect (mark : Mark) (what : String) : Parsing Unit := do
  if ← eat mark then return ()
  else refuse what

/-- Takes a name. -/
def expectName : Parsing String := do
  match (← peek 0).kind with
  | .name name =>
    advance
    return name
  | _ => refuse "identifier"

/-- Takes the name of a property: a name or a verbatim literal. -/
def expectPropertyName : Parsing String := do
  match (← peek 0).kind with
  | .name name | .literal .verbatim name =>
    advance
    return name
  | _ => refuse "property name"

/-- Follows a rule in a mode, and goes back to the mode before it, also if it halts. -/
def withMode {α : Type} (constructors : Bool) (rule : Parsing α) : Parsing α := fun p =>
  match rule.run { p with constructors } with
  | .ok value q => .ok value { q with constructors := p.constructors }
  | .error halt q => .error halt { q with constructors := p.constructors }

/-- Takes the semicolons in front. -/
def skipSemicolons : Nat → Parsing Unit
  | 0 => throw .spent
  | budget + 1 => do
    if ← eat .semicolon then skipSemicolons budget
    else return ()

/-- The parameter names of a function, up to the closing parenthesis. -/
def parameters : Nat → Parsing (List String)
  | 0 => throw .spent
  | budget + 1 => do
    if ← check .rightParen then return []
    else
      let name ← expectName
      if ← eat .comma then return name :: (← parameters budget)
      else return [name]

/-! ## Expressions -/

section

variable (splice : Position → List Char → Except Halt (List Part))

mutual

/-- An expression. -/
def expression : Nat → Parsing Expr
  | 0 => throw .spent
  | budget + 1 => binary budget 1

/-- An expression whose operators all bind at least as tightly as `least`. -/
def binary : Nat → Nat → Parsing Expr
  | 0, _ => throw .spent
  | budget + 1, least => do
    let lhs ← unary budget
    operators budget least lhs

/-- The operators and right operands behind a left operand. -/
def operators : Nat → Nat → Expr → Parsing Expr
  | 0, _, _ => throw .spent
  | budget + 1, least, lhs => do
    let token ← peek 0
    match token.binaryOp? with
    | none => return lhs
    | some op =>
      if op.precedence < least then return lhs
      else
        advance
        let rhs ← binary budget (op.precedence + 1)
        operators budget least (.binary token.position op lhs rhs)

/-- Operators in front of an operand. -/
def unary : Nat → Parsing Expr
  | 0 => throw .spent
  | budget + 1 => do
    let token ← peek 0
    match token.unaryOp? with
    | none => postfixed budget
    | some op =>
      advance
      let operand ← unary budget
      return .unary token.position op operand

/-- An operand with the members, calls and constructor braces behind it. -/
def postfixed : Nat → Parsing Expr
  | 0 => throw .spent
  | budget + 1 => do
    let value ← primary budget
    suffixes budget value

/-- Members, calls and constructor braces behind an expression. -/
def suffixes : Nat → Expr → Parsing Expr
  | 0, _ => throw .spent
  | budget + 1, value => do
    let token ← peek 0
    if token.isMark .dot then
      advance
      let name ← expectName
      suffixes budget (.member value.position value name)
    else if token.isMark .leftParen then
      let given ← arguments budget
      suffixes budget (.call value.position value given)
    else if token.isMark .leftBrace && (← mode) then
      match value.constructorHead? with
      | none => return value
      | some (typeName, given) =>
        let inits ← properties budget
        suffixes budget (.construct value.position typeName given inits)
    else return value

/-- A literal, a name, an array, a parenthesised expression, or a list in the braces of `Add`. -/
def primary : Nat → Parsing Expr
  | 0 => throw .spent
  | budget + 1 => do
    let token ← peek 0
    let position := token.position
    match token.kind with
    | .number value =>
      advance
      return .number position value
    | .literal .verbatim content =>
      advance
      return .text position content
    | .literal .names content =>
      advance
      return .interpolated position (Literal.namedParts position content.toList)
    | .literal .expressions content =>
      advance
      let parts ← ofExcept (splice position content.toList)
      return .interpolated position parts
    | .mark .leftBracket =>
      advance
      let items ← list budget .rightBracket "']'"
      return .array position items
    | .mark .leftParen =>
      advance
      let value ← withMode true (expression budget)
      expect .rightParen "')'"
      return value
    | .name name =>
      advance
      if name == "true" || name == "false" then return .bool position (name == "true")
      else if name == "Add" && (← check .leftBrace) && (← mode) then
        advance
        let items ← list budget .rightBrace "'\x7d'"
        return .call position (.name position name) [.positional (.array position items)]
      else return .name position name
    | _ => throw (.problem ⟨.unexpected token.description, position⟩)

/-- A list whose opening mark has been taken. -/
def list : Nat → Mark → String → Parsing (List Expr)
  | 0, _, _ => throw .spent
  | budget + 1, close, what => withMode true (items budget close what)

/-- Expressions between commas, up to and with the mark that closes them. -/
def items : Nat → Mark → String → Parsing (List Expr)
  | 0, _, _ => throw .spent
  | budget + 1, close, what => do
    if ← eat close then return []
    else
      let item ← expression budget
      if ← eat .comma then
        let others ← items budget close what
        return item :: others
      else
        expect close what
        return [item]

/-- The arguments of a call, in their parentheses. -/
def arguments : Nat → Parsing (List Argument)
  | 0 => throw .spent
  | budget + 1 => do
    expect .leftParen "'('"
    withMode true (argumentList budget false)

/-- The arguments of a call, up to and with the closing parenthesis. Once one is named, all are. -/
def argumentList : Nat → Bool → Parsing (List Argument)
  | 0, _ => throw .spent
  | budget + 1, seenNamed => do
    if ← eat .rightParen then return []
    else
      let first ← argument budget seenNamed
      if ← eat .comma then
        let others ← argumentList budget first.isNamed
        return first :: others
      else
        expect .rightParen "')' after arguments"
        return [first]

/-- One argument: a name, a colon and an expression, or an expression alone. -/
def argument : Nat → Bool → Parsing Argument
  | 0, _ => throw .spent
  | budget + 1, seenNamed => do
    let token ← peek 0
    match token.kind, (← peek 1).isMark .colon with
    | .name name, true =>
      advance
      advance
      let value ← expression budget
      return .named name value
    | _, _ =>
      if seenNamed then throw (.problem ⟨.positionalAfterNamed, token.position⟩)
      else
        let value ← expression budget
        return .positional value

/-- The properties of a constructor, in their braces. -/
def properties : Nat → Parsing (List PropertyInit)
  | 0 => throw .spent
  | budget + 1 => do
    expect .leftBrace "'\x7b'"
    withMode true (propertyList budget)

/-- The properties of a constructor, up to and with the closing brace. -/
def propertyList : Nat → Parsing (List PropertyInit)
  | 0 => throw .spent
  | budget + 1 => do
    if ← eat .rightBrace then return []
    else
      let name ← expectPropertyName
      expect .colon "':' after property name"
      let value ← expression budget
      if ← eat .comma then
        let others ← propertyList budget
        return .mk name value :: others
      else
        expect .rightBrace "'\x7d'"
        return [.mk name value]

end

/-! ## Statements -/

mutual

/-- A statement. -/
def statement : Nat → Parsing Stmt
  | 0 => throw .spent
  | budget + 1 => do
    let token ← peek 0
    let position := token.position
    match token.kind, (← peek 1).kind with
    | .name "func", .name _ =>
      advance
      let name ← expectName
      expect .leftParen "'(' after function name"
      let names ← parameters budget
      expect .rightParen "')' after parameters"
      let body ← block budget
      return .define position name names body
    | .name "repeat", _ =>
      advance
      let count ← withMode false (expression splice budget)
      let body ← block budget
      return .loop position count body
    | .name "wait", _ =>
      advance
      let seconds ← expression splice budget
      return .wait position seconds
    | .name "return", _ =>
      advance
      let next ← peek 0
      if next.position.line == position.line &&
          !(next.isMark .rightBrace || next.isMark .semicolon || next.isFinish) then
        let value ← expression splice budget
        return .leave position (some value)
      else return .leave position none
    | _, _ =>
      let target ← expression splice budget
      if ← check .assign then
        if target.isTarget then
          advance
          let value ← expression splice budget
          return .assign position target value
        else throw (.problem ⟨.invalidTarget, target.position⟩)
      else return .expr position target

/-- Statements in braces. -/
def block : Nat → Parsing (List Stmt)
  | 0 => throw .spent
  | budget + 1 => do
    expect .leftBrace "'\x7b'"
    withMode true (blockBody budget)

/-- Statements up to and with the closing brace. -/
def blockBody : Nat → Parsing (List Stmt)
  | 0 => throw .spent
  | budget + 1 => do
    skipSemicolons budget
    if ← eat .rightBrace then return []
    else
      let token ← peek 0
      if token.isFinish then throw (.problem ⟨.unclosedBlock, token.position⟩)
      else
        let first ← statement budget
        let others ← blockBody budget
        return first :: others

end

/-- An expression that takes up all of the tokens. -/
def standalone (budget : Nat) : Parsing Expr := do
  let value ← expression splice budget
  let token ← peek 0
  if token.isFinish then return value
  else throw (.problem ⟨.trailing token.description, token.position⟩)

end

/-! ## Literals and scripts -/

/-- What a rule reads, or why it halts. -/
def result {α : Type} (rule : Parsing α) (p : Parser) : Except Halt α :=
  match rule.run p with
  | .ok value _ => .ok value
  | .error halt _ => .error halt

/-- The parts of a literal whose braces hold expressions: each span is cut into tokens of its own,
for a parser of its own. -/
def spliceWithin : Nat → Position → List Char → Except Halt (List Part)
  | 0, _, _ => .error .spent
  | budget + 1, position, text =>
    (Literal.spans text).mapM fun
      | .plain run => .ok (.text (String.ofList run))
      | .braced content =>
        .expr <$> result (standalone (spliceWithin budget) budget)
          (new (TokenStream.ofText position content).tokens)

/-- A statement that is tried: where it begins, where the parser is then, and what has been read. -/
structure Visit where
  start : Nat
  stop : Nat
  statement? : Option Stmt

/-- How the reading of a script ends. -/
inductive Ending where
  /-- At the end of the text. -/
  | finished
  | halted (halt : Halt)
  /-- With a statement that takes no token: the parser made no progress. -/
  | stuck (position : Position)

/-- The statements that a parser tries until the text ends, one does not fit or takes no token. -/
def visits : Nat → Parser → List Visit × Ending
  | 0, _ => ([], .halted .spent)
  | budget + 1, p =>
    match (skipSemicolons budget).run p with
    | .error halt _ => ([], .halted halt)
    | .ok _ p =>
      if (p.peekAt 0).isFinish then ([], .finished)
      else
        match (statement (spliceWithin budget) budget).run p with
        | .error halt q => ([⟨p.place, q.place, none⟩], .halted halt)
        | .ok stmt q =>
          let visit : Visit := ⟨p.place, q.place, some stmt⟩
          if q.place = p.place then ([visit], .stuck (q.peekAt 0).position)
          else
            let (others, ending) := visits budget q
            (visit :: others, ending)

/-- The statements that a parser reads, and how it ends. -/
def parse (budget : Nat) (p : Parser) : List Stmt × Ending :=
  let (tried, ending) := visits budget p
  (tried.filterMap Visit.statement?, ending)

end Parser

end Animatic.Script
