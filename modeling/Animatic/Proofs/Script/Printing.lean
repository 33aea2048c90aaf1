import Animatic.Script.Grammar

/-!
# Printing scripts

The tokens that a script is written with, on one line and with no more parentheses than needed:
around an operand that binds less tightly than its place asks for. Expression statements, assignment
targets and counts stand in parentheses always, since a keyword or a brace would change their
meaning.

* `Expr.kinds`, `Stmt.kinds`, `Stmt.programKinds`: the kinds of the tokens.
* `Expr.Printable`, `Stmt.Printable`: what has such a text.
* `Expr.unplaced`, `Stmt.unplaced`: a tree without its positions.
-/

namespace Animatic.Script

/-! ## Operators -/

/-- The mark that a binary operator is written with. -/
def BinaryOp.mark : BinaryOp → Mark
  | mul => .star
  | div => .slash
  | rem => .percent
  | add => .plus
  | sub => .minus
  | eq => .equal
  | notEq => .notEqual
  | lt => .less
  | gt => .greater
  | ltEq => .lessEqual
  | gtEq => .greaterEqual
  | and => .andAnd
  | or => .orOr

/-- The mark that an operator in front of its operand is written with. -/
def UnaryOp.mark : UnaryOp → Mark
  | neg => .minus
  | not => .bang

/-- How tightly an operator in front of its operand binds. -/
def unaryTightness : Nat := 30

/-- How tightly a member, a call or an operand without operators binds. -/
def operandTightness : Nat := 40

/-- How tightly the outermost form of an expression binds. -/
def Expr.tightness : Expr → Nat
  | .binary _ op .. => op.precedence
  | .unary .. => unaryTightness
  | _ => operandTightness

theorem BinaryOp.precedence_pos (op : BinaryOp) : 1 ≤ op.precedence := by
  cases op <;> decide

theorem BinaryOp.precedence_lt (op : BinaryOp) : op.precedence < unaryTightness := by
  cases op <;> decide

theorem Expr.tightness_pos (value : Expr) : 1 ≤ value.tightness := by
  cases value with
  | binary position op lhs rhs => exact op.precedence_pos
  | unary position op operand => exact (by decide : 1 ≤ unaryTightness)
  | _ => exact (by decide : 1 ≤ operandTightness)

/-! ## Kinds of tokens -/

/-- Some tokens in parentheses. -/
def inParens (kinds : List Token.Kind) : List Token.Kind :=
  .mark .leftParen :: (kinds ++ [.mark .rightParen])

/-- Some tokens, in parentheses if the expression that they stand for binds too loosely. -/
def guarded (tightness least : Nat) (kinds : List Token.Kind) : List Token.Kind :=
  if tightness < least then inParens kinds else kinds

/-- The tokens of several things with a mark between them. -/
def separated (mark : Mark) : List (List Token.Kind) → List Token.Kind
  | [] => []
  | [kinds] => kinds
  | kinds :: next :: rest => kinds ++ .mark mark :: separated mark (next :: rest)

mutual

/-- The tokens of an expression. -/
def Expr.kinds : Expr → List Token.Kind
  | .number _ value => [.number value]
  | .bool _ value => [.name (if value then "true" else "false")]
  | .text _ value => [.literal .verbatim value]
  | .name _ name => [.name name]
  | .array _ items =>
    .mark .leftBracket :: (separated .comma (Expr.allKinds items) ++ [.mark .rightBracket])
  | .binary _ op lhs rhs =>
    guarded lhs.tightness op.precedence lhs.kinds ++
      .mark op.mark :: guarded rhs.tightness (op.precedence + 1) rhs.kinds
  | .unary _ op operand =>
    .mark op.mark :: guarded operand.tightness unaryTightness operand.kinds
  | .member _ target name =>
    guarded target.tightness operandTightness target.kinds ++ [.mark .dot, .name name]
  | .call _ callee arguments =>
    guarded callee.tightness operandTightness callee.kinds ++
      inParens (separated .comma (Argument.allKinds arguments))
  | .construct _ typeName arguments properties =>
    .name typeName :: (inParens (separated .comma (Argument.allKinds arguments)) ++
      .mark .leftBrace :: (separated .comma (PropertyInit.allKinds properties)
        ++ [.mark .rightBrace]))
  -- a text with parts has no text of its own
  | .interpolated .. => []

/-- The tokens of each of some expressions. -/
def Expr.allKinds : List Expr → List (List Token.Kind)
  | [] => []
  | item :: rest => item.kinds :: Expr.allKinds rest

/-- The tokens of an argument. -/
def Argument.kinds : Argument → List Token.Kind
  | .positional value => value.kinds
  | .named name value => .name name :: .mark .colon :: value.kinds

/-- The tokens of each of some arguments. -/
def Argument.allKinds : List Argument → List (List Token.Kind)
  | [] => []
  | argument :: rest => argument.kinds :: Argument.allKinds rest

/-- The tokens of a property. -/
def PropertyInit.kinds : PropertyInit → List Token.Kind
  | .mk name value => .literal .verbatim name :: .mark .colon :: value.kinds

/-- The tokens of each of some properties. -/
def PropertyInit.allKinds : List PropertyInit → List (List Token.Kind)
  | [] => []
  | property :: rest => property.kinds :: PropertyInit.allKinds rest

end

mutual

/-- The tokens of a statement. -/
def Stmt.kinds : Stmt → List Token.Kind
  | .assign _ target value => inParens target.kinds ++ .mark .assign :: value.kinds
  | .expr _ value => inParens value.kinds
  | .wait _ seconds => .name "wait" :: seconds.kinds
  | .loop _ count body =>
    .name "repeat" :: (inParens count.kinds ++ .mark .leftBrace ::
      (separated .semicolon (Stmt.allKinds body) ++ [.mark .rightBrace]))
  | .define _ name parameters body =>
    .name "func" :: .name name ::
      (inParens (separated .comma (parameters.map fun parameter => [.name parameter])) ++
        .mark .leftBrace :: (separated .semicolon (Stmt.allKinds body) ++ [.mark .rightBrace]))
  | .leave _ none => [.name "return"]
  | .leave _ (some value) => .name "return" :: value.kinds

/-- The tokens of each of some statements. -/
def Stmt.allKinds : List Stmt → List (List Token.Kind)
  | [] => []
  | stmt :: rest => stmt.kinds :: Stmt.allKinds rest

end

theorem Expr.allKinds_eq (items : List Expr) : Expr.allKinds items = items.map Expr.kinds := by
  induction items with
  | nil => rfl
  | cons item rest ih => rw [Expr.allKinds, ih, List.map_cons]

theorem Argument.allKinds_eq (arguments : List Argument) :
    Argument.allKinds arguments = arguments.map Argument.kinds := by
  induction arguments with
  | nil => rfl
  | cons argument rest ih => rw [Argument.allKinds, ih, List.map_cons]

theorem PropertyInit.allKinds_eq (properties : List PropertyInit) :
    PropertyInit.allKinds properties = properties.map PropertyInit.kinds := by
  induction properties with
  | nil => rfl
  | cons property rest ih => rw [PropertyInit.allKinds, ih, List.map_cons]

theorem Stmt.allKinds_eq (stmts : List Stmt) : Stmt.allKinds stmts = stmts.map Stmt.kinds := by
  induction stmts with
  | nil => rfl
  | cons stmt rest ih => rw [Stmt.allKinds, ih, List.map_cons]

/-- The tokens of a program. -/
def Stmt.programKinds (stmts : List Stmt) : List Token.Kind :=
  separated .semicolon (Stmt.allKinds stmts)

/-! ## What can be printed -/

/-- The value of an argument. -/
def Argument.value : Argument → Expr
  | .positional value | .named _ value => value

/-- The value of a property. -/
def PropertyInit.value : PropertyInit → Expr
  | .mk _ value => value

/-- No positional argument stands behind a named one. -/
def NamedLast (arguments : List Argument) : Prop :=
  arguments.Pairwise fun first later => first.isNamed = true → later.isNamed = true

/-- A word that does not stand for a truth value. -/
def Plain (word : String) : Prop := word ≠ "true" ∧ word ≠ "false"

/-- An expression that has a text: one without interpolated parts, without a name or a type that is
written as a truth value is, and without a positional argument behind a named one. -/
inductive Expr.Printable : Expr → Prop
  | number {position value} : Printable (.number position value)
  | bool {position value} : Printable (.bool position value)
  | text {position value} : Printable (.text position value)
  | name {position name} : Plain name → Printable (.name position name)
  | array {position items} : (∀ item ∈ items, Printable item) → Printable (.array position items)
  | binary {position op lhs rhs} : Printable lhs → Printable rhs →
    Printable (.binary position op lhs rhs)
  | unary {position op operand} : Printable operand → Printable (.unary position op operand)
  | member {position target name} : Printable target → Printable (.member position target name)
  | call {position callee arguments} : Printable callee →
    (∀ argument ∈ arguments, Printable argument.value) → NamedLast arguments →
    Printable (.call position callee arguments)
  | construct {position typeName arguments properties} : Plain typeName →
    (∀ argument ∈ arguments, Printable argument.value) → NamedLast arguments →
    (∀ property ∈ properties, Printable property.value) →
    Printable (.construct position typeName arguments properties)

/-- A statement that has a text: one whose expressions have one and that assigns to a name or a
member. -/
inductive Stmt.Printable : Stmt → Prop
  | assign {position target value} : target.isTarget = true → target.Printable → value.Printable →
    Printable (.assign position target value)
  | expr {position value} : value.Printable → Printable (.expr position value)
  | wait {position seconds} : seconds.Printable → Printable (.wait position seconds)
  | loop {position count body} : count.Printable → (∀ stmt ∈ body, Printable stmt) →
    Printable (.loop position count body)
  | define {position name parameters body} : (∀ stmt ∈ body, Printable stmt) →
    Printable (.define position name parameters body)
  | leave {position} : Printable (.leave position none)
  | leaveValue {position value} : value.Printable → Printable (.leave position (some value))

/-! ## Trees without positions -/

mutual

/-- An expression without its positions. -/
def Expr.unplaced : Expr → Expr
  | .number _ value => .number .start value
  | .bool _ value => .bool .start value
  | .text _ value => .text .start value
  | .name _ name => .name .start name
  | .array _ items => .array .start (Expr.allUnplaced items)
  | .binary _ op lhs rhs => .binary .start op lhs.unplaced rhs.unplaced
  | .unary _ op operand => .unary .start op operand.unplaced
  | .member _ target name => .member .start target.unplaced name
  | .call _ callee arguments => .call .start callee.unplaced (Argument.allUnplaced arguments)
  | .construct _ typeName arguments properties =>
    .construct .start typeName (Argument.allUnplaced arguments)
      (PropertyInit.allUnplaced properties)
  | .interpolated _ parts => .interpolated .start (Part.allUnplaced parts)

/-- Some expressions without their positions. -/
def Expr.allUnplaced : List Expr → List Expr
  | [] => []
  | item :: rest => item.unplaced :: Expr.allUnplaced rest

/-- An argument without its positions. -/
def Argument.unplaced : Argument → Argument
  | .positional value => .positional value.unplaced
  | .named name value => .named name value.unplaced

/-- Some arguments without their positions. -/
def Argument.allUnplaced : List Argument → List Argument
  | [] => []
  | argument :: rest => argument.unplaced :: Argument.allUnplaced rest

/-- A property without its positions. -/
def PropertyInit.unplaced : PropertyInit → PropertyInit
  | .mk name value => .mk name value.unplaced

/-- Some properties without their positions. -/
def PropertyInit.allUnplaced : List PropertyInit → List PropertyInit
  | [] => []
  | property :: rest => property.unplaced :: PropertyInit.allUnplaced rest

/-- A part without its positions. -/
def Part.unplaced : Part → Part
  | .text run => .text run
  | .expr value => .expr value.unplaced

/-- Some parts without their positions. -/
def Part.allUnplaced : List Part → List Part
  | [] => []
  | part :: rest => part.unplaced :: Part.allUnplaced rest

end

mutual

/-- A statement without its positions. -/
def Stmt.unplaced : Stmt → Stmt
  | .assign _ target value => .assign .start target.unplaced value.unplaced
  | .expr _ value => .expr .start value.unplaced
  | .wait _ seconds => .wait .start seconds.unplaced
  | .loop _ count body => .loop .start count.unplaced (Stmt.allUnplaced body)
  | .define _ name parameters body => .define .start name parameters (Stmt.allUnplaced body)
  | .leave _ none => .leave .start none
  | .leave _ (some value) => .leave .start (some value.unplaced)

/-- Some statements without their positions. -/
def Stmt.allUnplaced : List Stmt → List Stmt
  | [] => []
  | stmt :: rest => stmt.unplaced :: Stmt.allUnplaced rest

end

theorem Expr.allUnplaced_eq (items : List Expr) :
    Expr.allUnplaced items = items.map Expr.unplaced := by
  induction items with
  | nil => rfl
  | cons item rest ih => rw [Expr.allUnplaced, ih, List.map_cons]

theorem Argument.allUnplaced_eq (arguments : List Argument) :
    Argument.allUnplaced arguments = arguments.map Argument.unplaced := by
  induction arguments with
  | nil => rfl
  | cons argument rest ih => rw [Argument.allUnplaced, ih, List.map_cons]

theorem PropertyInit.allUnplaced_eq (properties : List PropertyInit) :
    PropertyInit.allUnplaced properties = properties.map PropertyInit.unplaced := by
  induction properties with
  | nil => rfl
  | cons property rest ih => rw [PropertyInit.allUnplaced, ih, List.map_cons]

theorem Stmt.allUnplaced_eq (stmts : List Stmt) :
    Stmt.allUnplaced stmts = stmts.map Stmt.unplaced := by
  induction stmts with
  | nil => rfl
  | cons stmt rest ih => rw [Stmt.allUnplaced, ih, List.map_cons]

end Animatic.Script
