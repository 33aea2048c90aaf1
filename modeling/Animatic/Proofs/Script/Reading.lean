import Animatic.Proofs.Script.Outcome
import Animatic.Proofs.Script.Printing

/-!
# Reading tokens back

What it means that the grammar reads tokens of some kinds back as an expression, at each of its
levels, and how a level passes the reading on to the next one.

* `Written`: the tokens of some kinds on one line.
* `Reads`: the tokens are read back, as tightly as the outermost form of the expression binds.
* `Listing`, `Listing.reads`: a list with a mark between its items is read back if its items are.
-/

namespace Animatic.Script

/-! ## Written tokens -/

/-- Tokens of the given kinds, all on one line. -/
def Written (line : Nat) (kinds : List Token.Kind) (tokens : List Token) : Prop :=
  tokens.map Token.kind = kinds ∧ ∀ token ∈ tokens, token.position.line = line

variable {line : Nat} {kind : Token.Kind} {kinds kinds₁ : List Token.Kind}
  {tokens rest : List Token} {token : Token}

theorem Written.nil (h : Written line [] tokens) : tokens = [] := List.map_eq_nil_iff.mp h.1

theorem Written.cons (h : Written line (kind :: kinds) tokens) :
    ∃ token rest, tokens = token :: rest ∧ token.kind = kind ∧ token.position.line = line ∧
      Written line kinds rest := by
  obtain ⟨hkinds, hline⟩ := h
  obtain ⟨token, rest, rfl, hkind, hrest⟩ := List.map_eq_cons_iff.mp hkinds
  rw [List.forall_mem_cons] at hline
  exact ⟨token, rest, rfl, hkind, hline.1, hrest, hline.2⟩

theorem Written.append (h : Written line (kinds ++ kinds₁) tokens) :
    ∃ first second, tokens = first ++ second ∧ Written line kinds first ∧
      Written line kinds₁ second := by
  obtain ⟨hkinds, hline⟩ := h
  obtain ⟨first, second, rfl, hfirst, hsecond⟩ := List.map_eq_append_iff.mp hkinds
  rw [List.forall_mem_append] at hline
  exact ⟨first, second, rfl, ⟨hfirst, hline.1⟩, hsecond, hline.2⟩

theorem Written.single (h : Written line [kind] tokens) :
    ∃ token, tokens = [token] ∧ token.kind = kind := by
  obtain ⟨token, rest, rfl, hkind, -, hrest⟩ := h.cons
  obtain rfl := hrest.nil
  exact ⟨token, rfl, hkind⟩

/-- The tokens of something with a mark behind it. -/
theorem Written.snoc (h : Written line (kinds ++ [kind]) tokens) :
    ∃ first token, tokens = first ++ [token] ∧ Written line kinds first ∧ token.kind = kind := by
  obtain ⟨first, second, rfl, hfirst, hsecond⟩ := h.append
  obtain ⟨token, rfl, hkind⟩ := hsecond.single
  exact ⟨first, token, rfl, hfirst, hkind⟩

theorem Written.inParens (h : Written line (inParens kinds) tokens) :
    ∃ opening inner closing, tokens = opening :: (inner ++ [closing]) ∧
      opening.kind = .mark .leftParen ∧ Written line kinds inner ∧
      closing.kind = .mark .rightParen := by
  obtain ⟨opening, rest, rfl, hopening, -, hrest⟩ := h.cons
  obtain ⟨inner, closing, rfl, hinner, hclosing⟩ := hrest.snoc
  exact ⟨opening, inner, closing, rfl, hopening, hinner, hclosing⟩

/-! ## Where expressions begin and end -/

/-- Whether an expression can begin with a token of this kind. -/
def Token.Kind.opens : Token.Kind → Bool
  | .name _ | .number _ | .literal .. => true
  | .mark .leftParen | .mark .leftBracket | .mark .minus | .mark .bang => true
  | _ => false

/-- Whether every expression in front of a token of this kind ends there. -/
def Token.Kind.ends : Token.Kind → Bool
  | .mark .dot | .mark .leftParen | .mark .leftBrace => false
  | .mark other => other.binaryOp?.isNone
  | _ => true

/-- An expression can begin here. -/
def Opens (tokens : List Token) : Prop := (front tokens).kind.opens = true

/-- Every expression in front of these tokens ends there. -/
def Ends (tokens : List Token) : Prop := (front tokens).kind.ends = true

theorem Opens.not_startsWith {mark : Mark} (h : Opens tokens)
    (hmark : (Token.Kind.mark mark).opens = false) : ¬ startsWith mark tokens := fun hfront => by
  rw [Opens, hfront, hmark] at h
  cases h

theorem Opens.begins (h : Opens tokens) : Begins tokens := by
  refine ⟨h.not_startsWith rfl, h.not_startsWith rfl, fun hfinish => ?_⟩
  rw [Opens, hfinish] at h
  cases h

/-- The value of a `return` follows it on the same line. -/
theorem returnsValue_of_opens (h : Opens tokens) (hline : (front tokens).position.line = line) :
    returnsValue line tokens = true := by
  have hbrace : ¬ (front tokens).isMark .rightBrace = true := fun hmark =>
    h.not_startsWith rfl (isMark_iff.mp hmark)
  have hsemicolon : ¬ (front tokens).isMark .semicolon = true := fun hmark =>
    h.not_startsWith rfl (isMark_iff.mp hmark)
  have hfinish : ¬ (front tokens).isFinish = true := fun hfinish =>
    h.begins.2.2 (isFinish_iff.mp hfinish)
  rw [returnsValue, hline, beq_self_eq_true, Bool.eq_false_iff.mpr hbrace,
    Bool.eq_false_iff.mpr hsemicolon, Bool.eq_false_iff.mpr hfinish]
  rfl

theorem ends_cons (h : token.kind = kind) (hends : kind.ends = true) : Ends (token :: rest) := by
  rw [Ends]
  exact h ▸ hends

theorem Ends.not_extends (h : Ends rest) : ¬ Extends true rest := by
  rw [Ends] at h
  rintro (hfront | hfront | ⟨-, hfront⟩) <;> rw [hfront] at h <;> cases h

theorem Ends.binaryOp? (h : Ends rest) : (front rest).binaryOp? = none := by
  rw [Ends] at h
  rw [Token.binaryOp?]
  cases hkind : (front rest).kind with
  | mark mark => rw [hkind] at h; cases mark <;> first | rfl | cases h
  | _ => rfl

/-- Behind an operand in front of which no operator stands, an expression ends where every one
does. -/
theorem outcome_expression_operand
    {splice : Position → List Char → Except Diagnostic (List Part)} {operand value : Expr}
    {behind : List Token} (hunary : (front tokens).unaryOp? = none)
    (hprimary : (primary splice true tokens).outcome = .ok (operand, behind))
    (hsuffixes : (suffixes splice true operand behind).outcome = .ok (value, rest))
    (h : Ends rest) : (expression splice true tokens).outcome = .ok (value, rest) := by
  have hread : (unary splice true tokens).outcome = .ok (value, rest) := by
    rw [outcome_unary_none hunary, outcome_postfixed hprimary, hsuffixes]
  have hbinary : ∀ op, (front rest).binaryOp? = some op → op.precedence < 1 := by
    intro op hop
    rw [h.binaryOp?] at hop
    cases hop
  rw [outcome_expression, outcome_binary hread, outcome_operators_stop hbinary]

/-- What begins no operand, in front of which no operator stands, stops an expression. -/
theorem outcome_expression_error
    {splice : Position → List Char → Except Diagnostic (List Part)} {d : Diagnostic}
    (hunary : (front tokens).unaryOp? = none)
    (hprimary : (primary splice true tokens).outcome = .error d) :
    (expression splice true tokens).outcome = .error d := by
  have hread : (unary splice true tokens).outcome = .error d := by
    rw [outcome_unary_none hunary, postfixed, Read.eq_error hprimary]
    rfl
  rw [outcome_expression, binary, Read.eq_error hread]
  rfl

theorem mark_binaryOp? (op : BinaryOp) : op.mark.binaryOp? = some op := by
  cases op <;> rfl

theorem binaryOp?_mark {op : BinaryOp} (h : token.kind = .mark op.mark) :
    token.binaryOp? = some op := by
  rw [Token.binaryOp?, h]
  exact mark_binaryOp? op

theorem unaryOp?_mark {op : UnaryOp} (h : token.kind = .mark op.mark) :
    token.unaryOp? = some op := by
  rw [Token.unaryOp?, h]
  cases op <;> rfl

theorem not_extends_operator {op : BinaryOp} (h : token.kind = .mark op.mark) :
    ¬ Extends true (token :: rest) := by
  rintro (hfront | hfront | ⟨-, hfront⟩) <;>
    cases op <;> exact Mark.noConfusion (Token.Kind.mark.inj (h.symm.trans hfront))

/-! ## What is read begins an expression -/

section

variable {splice : Position → List Char → Except Diagnostic (List Part)} {constructors : Bool}
  {least : Nat}

private theorem ok_of_bind {α β : Type} {m n : Nat} {r : Read α m} {f : Reading α m → Read β n}
    {x : β × List Token} (h : Read.outcome (r >>= f) = .ok x) : ∃ y, r.outcome = .ok y := by
  cases r with
  | error e => cases h
  | ok reading => exact ⟨_, rfl⟩

private theorem opens_of_primary {x : Expr × List Token}
    (h : (primary splice constructors tokens).outcome = .ok x) :
    Opens tokens ∧ (front tokens).unaryOp? = none := by
  cases tokens with
  | nil => rw [primary] at h; cases h
  | cons token rest =>
    obtain ⟨kind, text, position⟩ := token
    rw [primary] at h
    cases kind with
    | mark mark => cases mark <;> first | exact ⟨rfl, rfl⟩ | cases h
    | stray c => cases h
    | finish => cases h
    | _ => exact ⟨rfl, rfl⟩

theorem opens_of_postfixed {x : Expr × List Token}
    (h : (postfixed splice constructors tokens).outcome = .ok x) :
    Opens tokens ∧ (front tokens).unaryOp? = none := by
  rw [postfixed] at h
  obtain ⟨y, hprimary⟩ := ok_of_bind h
  exact opens_of_primary hprimary

private theorem opens_of_unaryOp? {op : UnaryOp} (h : token.unaryOp? = some op) :
    Opens (token :: rest) := by
  obtain ⟨kind, text, position⟩ := token
  cases kind with
  | mark mark => cases mark <;> first | rfl | cases h
  | _ => cases h

private theorem opens_of_unary {x : Expr × List Token}
    (h : (unary splice constructors tokens).outcome = .ok x) : Opens tokens := by
  cases tokens with
  | nil =>
    rw [unary] at h
    exact (opens_of_postfixed h).1
  | cons token rest =>
    cases hop : token.unaryOp? with
    | none =>
      have hfront : (front (token :: rest)).unaryOp? = none := hop
      exact (opens_of_postfixed ((outcome_unary_none hfront).symm.trans h)).1
    | some op => exact opens_of_unaryOp? hop

theorem opens_of_expression {x : Expr × List Token}
    (h : (expression splice constructors tokens).outcome = .ok x) : Opens tokens := by
  rw [outcome_expression, binary] at h
  obtain ⟨y, hunary⟩ := ok_of_bind h
  exact opens_of_unary hunary

end

end Animatic.Script
