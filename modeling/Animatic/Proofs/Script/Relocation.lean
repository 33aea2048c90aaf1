import Animatic.Proofs.Script.Printing
import Animatic.Script.Statement
import Animatic.Script.TokenStream

/-!
# Moving a text

A text that is read at another place gives the same tokens and diagnostics with other positions.

* `Position.Relocation`: a map of positions that goes along with reading on.
* `Position.down_relocation`: moving down by some lines.
* `Expr.relocate`, `Stmt.relocate`: a tree with other positions.
* `TokenStream.scan_relocate`: the tokens and diagnostics of a text at another place.
-/

namespace Animatic.Script

/-! ## Positions -/

namespace Position

/-- The position some lines further down. -/
def down (lines : Nat) (position : Position) : Position :=
  ⟨position.line + lines, position.column⟩

/-- A map of positions that goes along with reading on and keeps apart what stands on different
lines. -/
structure Relocation (f : Position → Position) : Prop where
  next : ∀ position c, f (position.next c) = (f position).next c
  line : ∀ p q, (f p).line = (f q).line ↔ p.line = q.line

theorem down_relocation (lines : Nat) : Relocation (down lines) where
  next position c := by
    unfold next
    split
    · simp only [down, Position.mk.injEq, and_true]
      omega
    · simp only [down]
  line p q := by simp only [down]; omega

theorem id_relocation : Relocation id := ⟨fun _ _ => rfl, fun _ _ => Iff.rfl⟩

theorem Relocation.advance {f : Position → Position} (hf : Relocation f) (position : Position)
    (text : List Char) : f (position.advance text) = (f position).advance text := by
  induction text generalizing position with
  | nil => rfl
  | cons c rest ih => rw [advance_cons, advance_cons, ih, hf.next]

end Position

/-! ## Trees -/

section

variable (f : Position → Position)

mutual

/-- An expression with other positions. -/
def Expr.relocate : Expr → Expr
  | .number position value => .number (f position) value
  | .bool position value => .bool (f position) value
  | .text position value => .text (f position) value
  | .name position name => .name (f position) name
  | .array position items => .array (f position) (Expr.allRelocate items)
  | .binary position op lhs rhs => .binary (f position) op lhs.relocate rhs.relocate
  | .unary position op operand => .unary (f position) op operand.relocate
  | .member position target name => .member (f position) target.relocate name
  | .call position callee arguments =>
    .call (f position) callee.relocate (Argument.allRelocate arguments)
  | .construct position typeName arguments properties =>
    .construct (f position) typeName (Argument.allRelocate arguments)
      (PropertyInit.allRelocate properties)
  | .interpolated position parts => .interpolated (f position) (Part.allRelocate parts)

/-- Some expressions with other positions. -/
def Expr.allRelocate : List Expr → List Expr
  | [] => []
  | item :: rest => item.relocate :: Expr.allRelocate rest

/-- An argument with other positions. -/
def Argument.relocate : Argument → Argument
  | .positional value => .positional value.relocate
  | .named name value => .named name value.relocate

/-- Some arguments with other positions. -/
def Argument.allRelocate : List Argument → List Argument
  | [] => []
  | argument :: rest => argument.relocate :: Argument.allRelocate rest

/-- A property with other positions. -/
def PropertyInit.relocate : PropertyInit → PropertyInit
  | .mk name value => .mk name value.relocate

/-- Some properties with other positions. -/
def PropertyInit.allRelocate : List PropertyInit → List PropertyInit
  | [] => []
  | property :: rest => property.relocate :: PropertyInit.allRelocate rest

/-- A part with other positions. -/
def Part.relocate : Part → Part
  | .text run => .text run
  | .expr value => .expr value.relocate

/-- Some parts with other positions. -/
def Part.allRelocate : List Part → List Part
  | [] => []
  | part :: rest => part.relocate :: Part.allRelocate rest

end

mutual

/-- A statement with other positions. -/
def Stmt.relocate : Stmt → Stmt
  | .assign position target value => .assign (f position) (target.relocate f) (value.relocate f)
  | .expr position value => .expr (f position) (value.relocate f)
  | .wait position seconds => .wait (f position) (seconds.relocate f)
  | .loop position count body => .loop (f position) (count.relocate f) (Stmt.allRelocate body)
  | .define position name parameters body =>
    .define (f position) name parameters (Stmt.allRelocate body)
  | .leave position none => .leave (f position) none
  | .leave position (some value) => .leave (f position) (some (value.relocate f))

/-- Some statements with other positions. -/
def Stmt.allRelocate : List Stmt → List Stmt
  | [] => []
  | stmt :: rest => stmt.relocate :: Stmt.allRelocate rest

end

/-- A token with another position. -/
def Token.relocate (token : Token) : Token := { token with position := f token.position }

/-- A diagnostic with another position. -/
def Diagnostic.relocate (d : Diagnostic) : Diagnostic := { d with position := f d.position }

theorem Token.isFinish_relocate (token : Token) :
    (token.relocate f).isFinish = token.isFinish := rfl

theorem Part.allRelocate_eq (parts : List Part) :
    Part.allRelocate f parts = parts.map (Part.relocate f) := by
  induction parts with
  | nil => rfl
  | cons part rest ih => rw [allRelocate, ih, List.map_cons]

theorem Stmt.allRelocate_eq (stmts : List Stmt) :
    Stmt.allRelocate f stmts = stmts.map (Stmt.relocate f) := by
  induction stmts with
  | nil => rfl
  | cons stmt rest ih => rw [allRelocate, ih, List.map_cons]

@[simp] theorem Expr.position_relocate (value : Expr) :
    (value.relocate f).position = f value.position := by
  cases value <;> rfl

@[simp] theorem Expr.isTarget_relocate (value : Expr) :
    (value.relocate f).isTarget = value.isTarget := by
  cases value <;> rfl

@[simp] theorem Argument.isNamed_relocate (argument : Argument) :
    (argument.relocate f).isNamed = argument.isNamed := by
  cases argument <;> rfl

theorem Expr.constructorHead?_relocate (value : Expr) :
    (value.relocate f).constructorHead? =
      value.constructorHead?.map fun (typeName, arguments) =>
        (typeName, Argument.allRelocate f arguments) := by
  cases value with
  | call position callee arguments => cases callee <;> rfl
  | _ => rfl

/-! ## Trees without positions -/

mutual

@[simp] theorem Expr.unplaced_relocate : (value : Expr) →
    (value.relocate f).unplaced = value.unplaced
  | .number .. | .bool .. | .text .. | .name .. => rfl
  | .array _ items => by
    rw [Expr.relocate, Expr.unplaced, Expr.unplaced, Expr.allUnplaced_relocate items]
  | .binary _ _ lhs rhs => by
    rw [Expr.relocate, Expr.unplaced, Expr.unplaced, lhs.unplaced_relocate, rhs.unplaced_relocate]
  | .unary _ _ operand => by
    rw [Expr.relocate, Expr.unplaced, Expr.unplaced, operand.unplaced_relocate]
  | .member _ target _ => by
    rw [Expr.relocate, Expr.unplaced, Expr.unplaced, target.unplaced_relocate]
  | .call _ callee arguments => by
    rw [Expr.relocate, Expr.unplaced, Expr.unplaced, callee.unplaced_relocate,
      Argument.allUnplaced_relocate arguments]
  | .construct _ _ arguments properties => by
    rw [Expr.relocate, Expr.unplaced, Expr.unplaced, Argument.allUnplaced_relocate arguments,
      PropertyInit.allUnplaced_relocate properties]
  | .interpolated _ parts => by
    rw [Expr.relocate, Expr.unplaced, Expr.unplaced, Part.allUnplaced_relocate parts]

theorem Expr.allUnplaced_relocate : (items : List Expr) →
    Expr.allUnplaced (Expr.allRelocate f items) = Expr.allUnplaced items
  | [] => rfl
  | item :: rest => by
    rw [Expr.allRelocate, Expr.allUnplaced, Expr.allUnplaced, item.unplaced_relocate,
      Expr.allUnplaced_relocate rest]

theorem Argument.unplaced_relocate : (argument : Argument) →
    (argument.relocate f).unplaced = argument.unplaced
  | .positional value | .named _ value => by
    rw [Argument.relocate, Argument.unplaced, Argument.unplaced, value.unplaced_relocate]

theorem Argument.allUnplaced_relocate : (arguments : List Argument) →
    Argument.allUnplaced (Argument.allRelocate f arguments) = Argument.allUnplaced arguments
  | [] => rfl
  | argument :: rest => by
    rw [Argument.allRelocate, Argument.allUnplaced, Argument.allUnplaced,
      argument.unplaced_relocate, Argument.allUnplaced_relocate rest]

theorem PropertyInit.unplaced_relocate : (property : PropertyInit) →
    (property.relocate f).unplaced = property.unplaced
  | .mk _ value => by
    rw [PropertyInit.relocate, PropertyInit.unplaced, PropertyInit.unplaced,
      value.unplaced_relocate]

theorem PropertyInit.allUnplaced_relocate : (properties : List PropertyInit) →
    PropertyInit.allUnplaced (PropertyInit.allRelocate f properties) =
      PropertyInit.allUnplaced properties
  | [] => rfl
  | property :: rest => by
    rw [PropertyInit.allRelocate, PropertyInit.allUnplaced, PropertyInit.allUnplaced,
      property.unplaced_relocate, PropertyInit.allUnplaced_relocate rest]

theorem Part.unplaced_relocate : (part : Part) → (part.relocate f).unplaced = part.unplaced
  | .text _ => rfl
  | .expr value => by rw [Part.relocate, Part.unplaced, Part.unplaced, value.unplaced_relocate]

theorem Part.allUnplaced_relocate : (parts : List Part) →
    Part.allUnplaced (Part.allRelocate f parts) = Part.allUnplaced parts
  | [] => rfl
  | part :: rest => by
    rw [Part.allRelocate, Part.allUnplaced, Part.allUnplaced, part.unplaced_relocate,
      Part.allUnplaced_relocate rest]

end

mutual

/-- Where a tree stands does not matter to the tree without positions. -/
theorem Stmt.unplaced_relocate : (stmt : Stmt) → (stmt.relocate f).unplaced = stmt.unplaced
  | .assign _ target value => by
    rw [Stmt.relocate, Stmt.unplaced, Stmt.unplaced, target.unplaced_relocate,
      value.unplaced_relocate]
  | .expr _ value | .wait _ value | .leave _ (some value) => by
    rw [Stmt.relocate, Stmt.unplaced, Stmt.unplaced, value.unplaced_relocate]
  | .loop _ count body => by
    rw [Stmt.relocate, Stmt.unplaced, Stmt.unplaced, count.unplaced_relocate,
      Stmt.allUnplaced_relocate body]
  | .define _ _ _ body => by
    rw [Stmt.relocate, Stmt.unplaced, Stmt.unplaced, Stmt.allUnplaced_relocate body]
  | .leave _ none => rfl

theorem Stmt.allUnplaced_relocate : (stmts : List Stmt) →
    Stmt.allUnplaced (Stmt.allRelocate f stmts) = Stmt.allUnplaced stmts
  | [] => rfl
  | stmt :: rest => by
    rw [Stmt.allRelocate, Stmt.allUnplaced, Stmt.allUnplaced, stmt.unplaced_relocate,
      Stmt.allUnplaced_relocate rest]

end

end

/-! ## Trees that stay -/

mutual

theorem Expr.relocate_id : (value : Expr) → value.relocate id = value
  | .number .. | .bool .. | .text .. | .name .. => rfl
  | .array _ items => by rw [Expr.relocate, Expr.allRelocate_id items, id_eq]
  | .binary _ _ lhs rhs => by rw [Expr.relocate, lhs.relocate_id, rhs.relocate_id, id_eq]
  | .unary _ _ operand => by rw [Expr.relocate, operand.relocate_id, id_eq]
  | .member _ target _ => by rw [Expr.relocate, target.relocate_id, id_eq]
  | .call _ callee arguments => by
    rw [Expr.relocate, callee.relocate_id, Argument.allRelocate_id arguments, id_eq]
  | .construct _ _ arguments properties => by
    rw [Expr.relocate, Argument.allRelocate_id arguments, PropertyInit.allRelocate_id properties,
      id_eq]
  | .interpolated _ parts => by rw [Expr.relocate, Part.allRelocate_id parts, id_eq]

theorem Expr.allRelocate_id : (items : List Expr) → Expr.allRelocate id items = items
  | [] => rfl
  | item :: rest => by rw [Expr.allRelocate, item.relocate_id, Expr.allRelocate_id rest]

theorem Argument.relocate_id : (argument : Argument) → argument.relocate id = argument
  | .positional value | .named _ value => by rw [Argument.relocate, value.relocate_id]

theorem Argument.allRelocate_id : (arguments : List Argument) →
    Argument.allRelocate id arguments = arguments
  | [] => rfl
  | argument :: rest => by
    rw [Argument.allRelocate, argument.relocate_id, Argument.allRelocate_id rest]

theorem PropertyInit.relocate_id : (property : PropertyInit) → property.relocate id = property
  | .mk _ value => by rw [PropertyInit.relocate, value.relocate_id]

theorem PropertyInit.allRelocate_id : (properties : List PropertyInit) →
    PropertyInit.allRelocate id properties = properties
  | [] => rfl
  | property :: rest => by
    rw [PropertyInit.allRelocate, property.relocate_id, PropertyInit.allRelocate_id rest]

theorem Part.relocate_id : (part : Part) → part.relocate id = part
  | .text _ => rfl
  | .expr value => by rw [Part.relocate, value.relocate_id]

theorem Part.allRelocate_id : (parts : List Part) → Part.allRelocate id parts = parts
  | [] => rfl
  | part :: rest => by rw [Part.allRelocate, part.relocate_id, Part.allRelocate_id rest]

end

mutual

theorem Stmt.relocate_id : (stmt : Stmt) → stmt.relocate id = stmt
  | .assign _ target value => by rw [Stmt.relocate, target.relocate_id, value.relocate_id, id_eq]
  | .expr _ value | .wait _ value | .leave _ (some value) => by
    rw [Stmt.relocate, value.relocate_id, id_eq]
  | .loop _ count body => by rw [Stmt.relocate, count.relocate_id, Stmt.allRelocate_id body, id_eq]
  | .define _ _ _ body => by rw [Stmt.relocate, Stmt.allRelocate_id body, id_eq]
  | .leave _ none => rfl

theorem Stmt.allRelocate_id : (stmts : List Stmt) → Stmt.allRelocate id stmts = stmts
  | [] => rfl
  | stmt :: rest => by rw [Stmt.allRelocate, stmt.relocate_id, Stmt.allRelocate_id rest]

end

/-! ## Literals in which names stand for values -/

section

variable {f : Position → Position}

private theorem relocate_foldl_member (position : Position) (names : List (List Char))
    (value : Expr) :
    (names.foldl (fun target name => .member position target (String.ofList name)) value).relocate f
      = names.foldl (fun target name => .member (f position) target (String.ofList name))
          (value.relocate f) := by
  induction names generalizing value with
  | nil => rfl
  | cons name rest ih => rw [List.foldl_cons, List.foldl_cons, ih, Expr.relocate]

private theorem dottedName?_relocate (position : Position) (path : List Char) :
    Literal.dottedName? (f position) path =
      (Literal.dottedName? position path).map (Expr.relocate f) := by
  unfold Literal.dottedName?
  split
  · rfl
  · split
    · rw [Option.map_some, relocate_foldl_member, Expr.relocate]
    · rfl

theorem namedParts_relocate (position : Position) (text : List Char) :
    Literal.namedParts (f position) text =
      Part.allRelocate f (Literal.namedParts position text) := by
  rw [Part.allRelocate_eq, Literal.namedParts, Literal.namedParts, List.map_map]
  refine List.map_congr_left fun span _ => ?_
  cases span with
  | plain run => rfl
  | braced content =>
    rw [Function.comp_apply, Literal.namedPart, Literal.namedPart, dottedName?_relocate]
    cases Literal.dottedName? position (Text.trim content) <;> rfl

/-! ## Token streams -/

private theorem toList_relocate (problem : Option Problem) (position : Position) :
    (problem.map (Diagnostic.mk · (f position))).toList =
      (problem.map (Diagnostic.mk · position)).toList.map (Diagnostic.relocate f) := by
  cases problem <;> rfl

namespace TokenStream

/-- A text of nothing but trivia. -/
theorem scan_of_nil {afterOperand : Bool} {position : Position} {text : List Char}
    (h : text.drop (triviaLength false text) = []) :
    scan afterOperand position text =
      ⟨[.atEnd (position.advance (text.take (triviaLength false text)))], []⟩ := by
  rw [scan]
  dsimp only
  split
  · rfl
  · rename_i heq
    exact absurd (h.symm.trans heq) (by simp)

/-- A text with a token behind its trivia. -/
theorem scan_of_cons {afterOperand : Bool} {position : Position} {text rest : List Char}
    {first : Char} (h : text.drop (triviaLength false text) = first :: rest) :
    scan afterOperand position text =
      let start := position.advance (text.take (triviaLength false text))
      let lexeme := Lexeme.read afterOperand first rest
      let lexemeText := first :: rest.take lexeme.extra
      let following := scan lexeme.kind.endsOperand (start.advance lexemeText)
        (rest.drop lexeme.extra)
      { tokens := ⟨lexeme.kind, String.ofList lexemeText, start⟩ :: following.tokens
        diagnostics :=
          (lexeme.problem.map (Diagnostic.mk · start)).toList ++ following.diagnostics } := by
  rw [scan]
  dsimp only
  split
  · rename_i heq
    exact absurd (h.symm.trans heq) (by simp)
  · rename_i heq
    obtain ⟨rfl, rfl⟩ := List.cons.inj (h.symm.trans heq)
    rfl

/-- The tokens and diagnostics of a text at another place. -/
theorem scan_relocate (hf : Position.Relocation f) (afterOperand : Bool)
    (position : Position) (text : List Char) :
    scan afterOperand (f position) text =
      { tokens := (scan afterOperand position text).tokens.map (Token.relocate f)
        diagnostics :=
          (scan afterOperand position text).diagnostics.map (Diagnostic.relocate f) } := by
  induction afterOperand, position, text using scan.induct with
  | case1 afterOperand position text skipped h =>
    rw [scan_of_nil h, scan_of_nil h, ← hf.advance]
    rfl
  | case2 afterOperand position text skipped position' first rest h lexeme lexemeText ih =>
    rw [scan_of_cons h, scan_of_cons h]
    dsimp only
    rw [← hf.advance, ← hf.advance, ih, toList_relocate, List.map_append]
    rfl

end TokenStream

end

end Animatic.Script
