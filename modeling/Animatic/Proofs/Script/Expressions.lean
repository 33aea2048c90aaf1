import Animatic.Proofs.Script.Lists

/-!
# Printed expressions are read back

One lemma for each form of an expression, and `Expr.Printable.reads`, by induction on what has a
text.
-/

namespace Animatic.Script

variable {splice : Position → List Char → Except Diagnostic (List Part)} {line : Nat}
  {kinds : List Token.Kind} {value : Expr}

/-! ## Operands -/

/-- An operand of one token. -/
private theorem readsOperand_single {kind : Token.Kind}
    (h : ∀ token rest, token.kind = kind → ¬ startsWith .leftBrace rest →
      ∃ value', value'.unplaced = value.unplaced ∧
        (primary splice true (token :: rest)).outcome = .ok (value', rest)) :
    ReadsOperand splice line [kind] value := by
  intro tokens rest hwritten hbrace
  obtain ⟨token, rfl, hkind⟩ := hwritten.single
  obtain ⟨value', hvalue, hread⟩ := h token rest hkind hbrace
  exact ⟨value', hvalue, outcome_postfixed hread⟩

private theorem readsOperand_name (position : Position) {name : String} (h : Plain name) :
    ReadsOperand splice line [.name name] (.name position name) :=
  readsOperand_single fun token _ hkind hbrace =>
    ⟨.name token.position name, rfl, outcome_primary_name hkind h.1 h.2 fun _ _ => hbrace⟩

private theorem readsOperand_bool {position : Position} {truth : Bool} :
    ReadsOperand splice line [.name (if truth then "true" else "false")]
      (.bool position truth) := by
  refine readsOperand_single fun token rest hkind _ => ⟨.bool token.position truth, rfl, ?_⟩
  cases truth with
  | true => exact outcome_primary_bool hkind (.inl rfl)
  | false => exact outcome_primary_bool hkind (.inr rfl)

private theorem readsOperand_array {position : Position} {items : List Expr}
    (hitems : ∀ item ∈ items, ReadsExpression splice line item.kinds item) :
    ReadsOperand splice line (Expr.array position items).kinds (.array position items) := by
  intro tokens rest hwritten _
  rw [Expr.kinds] at hwritten
  obtain ⟨opening, behind, rfl, hopening, -, hbehind⟩ := hwritten.cons
  obtain ⟨inner, closing, rfl, hinner, hclosing⟩ := hbehind.snoc
  obtain ⟨items', hitems', hread⟩ := outcome_items hitems hinner hclosing rest
  refine ⟨.array opening.position items', by rw [Expr.unplaced, hitems', Expr.unplaced], ?_⟩
  rw [List.cons_append, List.append_assoc, List.singleton_append]
  exact outcome_postfixed (outcome_primary_array hopening hread)

private theorem readsOperand_member {position : Position} {target : Expr} {name : String}
    (h : ReadsOperand splice line kinds target) :
    ReadsOperand splice line (kinds ++ [.mark .dot, .name name])
      (.member position target name) := by
  intro tokens rest hwritten _
  obtain ⟨first, behind, rfl, hfirst, hbehind⟩ := hwritten.append
  obtain ⟨dot, second, rfl, hdot, -, hsecond⟩ := hbehind.cons
  obtain ⟨word, rfl, hword⟩ := hsecond.single
  obtain ⟨target', htarget, hread⟩ := h first (dot :: word :: rest) hfirst fun hbrace =>
    Mark.noConfusion (Token.Kind.mark.inj (hdot.symm.trans hbrace))
  refine ⟨.member target'.position target' name,
    by rw [Expr.unplaced, htarget, Expr.unplaced], ?_⟩
  rw [List.append_assoc, List.cons_append, List.singleton_append, hread,
    outcome_suffixes_member hdot hword]

/-- A call is read as such, with the callee that is read. -/
private theorem outcome_postfixed_call {callee : Expr} {arguments : List Argument}
    {tokens : List Token} (h : ReadsOperand splice line kinds callee)
    (harguments : ∀ argument ∈ arguments,
      ReadsExpression splice line argument.value.kinds argument.value)
    (hnamed : NamedLast arguments)
    (hwritten : Written line
      (kinds ++ inParens (separated .comma (Argument.allKinds arguments))) tokens)
    (rest : List Token) :
    ∃ callee' arguments', callee'.unplaced = callee.unplaced ∧
      Argument.allUnplaced arguments' = Argument.allUnplaced arguments ∧
      (postfixed splice true (tokens ++ rest)).outcome =
        (suffixes splice true (.call callee'.position callee' arguments') rest).outcome := by
  obtain ⟨first, second, rfl, hfirst, hsecond⟩ := hwritten.append
  obtain ⟨opening, inner, closing, rfl, hopening, hinner, hclosing⟩ := hsecond.inParens
  obtain ⟨arguments', harguments', hlist⟩ :=
    outcome_arguments harguments hnamed hinner hclosing rest
  obtain ⟨callee', hcallee, hread⟩ := h first (opening :: (inner ++ closing :: rest)) hfirst
    fun hbrace => Mark.noConfusion (Token.Kind.mark.inj (hopening.symm.trans hbrace))
  refine ⟨callee', arguments', hcallee, harguments', ?_⟩
  rw [List.append_assoc, List.cons_append, List.append_assoc, List.singleton_append, hread,
    outcome_suffixes_call hopening hlist]

private theorem readsOperand_call {position : Position} {callee : Expr} {arguments : List Argument}
    (h : ReadsOperand splice line kinds callee)
    (harguments : ∀ argument ∈ arguments,
      ReadsExpression splice line argument.value.kinds argument.value)
    (hnamed : NamedLast arguments) :
    ReadsOperand splice line
      (kinds ++ inParens (separated .comma (Argument.allKinds arguments)))
      (.call position callee arguments) := by
  intro tokens rest hwritten _
  obtain ⟨callee', arguments', hcallee, harguments', hread⟩ :=
    outcome_postfixed_call h harguments hnamed hwritten rest
  exact ⟨_, by rw [Expr.unplaced, hcallee, harguments', Expr.unplaced], hread⟩

/-- What is written as a name is read as one. -/
private theorem name_of_unplaced {value : Expr} {position : Position} {name : String}
    (h : value.unplaced = (Expr.name position name).unplaced) :
    ∃ position', value = .name position' name := by
  cases value with
  | name position' name' =>
    rw [Expr.unplaced, Expr.unplaced] at h
    obtain ⟨-, rfl⟩ := Expr.name.inj h
    exact ⟨position', rfl⟩
  | _ => rw [Expr.unplaced, Expr.unplaced] at h; cases h

private theorem readsOperand_construct {position : Position} {typeName : String}
    {arguments : List Argument} {properties : List PropertyInit} (hplain : Plain typeName)
    (harguments : ∀ argument ∈ arguments,
      ReadsExpression splice line argument.value.kinds argument.value)
    (hnamed : NamedLast arguments)
    (hproperties : ∀ property ∈ properties,
      ReadsExpression splice line property.value.kinds property.value) :
    ReadsOperand splice line (Expr.construct position typeName arguments properties).kinds
      (.construct position typeName arguments properties) := by
  intro tokens rest hwritten _
  rw [Expr.kinds, ← List.cons_append] at hwritten
  obtain ⟨first, behind, rfl, hfirst, hbehind⟩ := hwritten.append
  obtain ⟨opening, second, rfl, hopening, -, hsecond⟩ := hbehind.cons
  obtain ⟨inner, closing, rfl, hinner, hclosing⟩ := hsecond.snoc
  obtain ⟨properties', hproperties', hlist⟩ :=
    outcome_properties hproperties hinner hclosing rest
  obtain ⟨callee', arguments', hcallee, harguments', hread⟩ :=
    outcome_postfixed_call (readsOperand_name position hplain) harguments hnamed hfirst
      (opening :: (inner ++ closing :: rest))
  obtain ⟨position', rfl⟩ := name_of_unplaced hcallee
  refine ⟨.construct position' typeName arguments' properties',
    by rw [Expr.unplaced, harguments', hproperties', Expr.unplaced], ?_⟩
  rw [List.append_assoc, List.cons_append, List.append_assoc, List.singleton_append, hread]
  exact outcome_suffixes_construct hopening rfl hlist

/-! ## Operators -/

private theorem readsUnary_unary {position : Position} {op : UnaryOp} {operand : Expr}
    (h : ReadsUnary splice line kinds operand) :
    ReadsUnary splice line (.mark op.mark :: kinds) (.unary position op operand) := by
  intro tokens rest hwritten hrest
  obtain ⟨token, inner, rfl, htoken, -, hinner⟩ := hwritten.cons
  obtain ⟨operand', hoperand, hread⟩ := h inner rest hinner hrest
  refine ⟨.unary token.position op operand', by rw [Expr.unplaced, hoperand, Expr.unplaced], ?_⟩
  exact outcome_unary_some (unaryOp?_mark htoken) hread

/-- Operators of one precedence associate to the left: the right operand is read up to the next
operator that binds no more tightly. -/
private theorem readsBinary_binary {position : Position} {op : BinaryOp} {lhs rhs : Expr}
    {kinds₁ : List Token.Kind} (hlhs : ReadsBinary splice line op.precedence kinds lhs)
    (hrhs : ReadsBinary splice line (op.precedence + 1) kinds₁ rhs) :
    ReadsBinary splice line op.precedence (kinds ++ .mark op.mark :: kinds₁)
      (.binary position op lhs rhs) := by
  intro tokens rest least hwritten hleast hrest hop
  obtain ⟨first, behind, rfl, hfirst, hbehind⟩ := hwritten.append
  obtain ⟨token, second, rfl, htoken, -, hsecond⟩ := hbehind.cons
  have hfront : token.binaryOp? = some op := binaryOp?_mark htoken
  obtain ⟨lhs', hlhs', hleft⟩ := hlhs first (token :: (second ++ rest)) least hfirst hleast
    (not_extends_operator htoken) fun op' hop' => by
      obtain rfl : op = op' := Option.some.inj (hfront.symm.trans hop')
      exact Nat.le_refl _
  obtain ⟨rhs', hrhs', hright⟩ := hrhs second rest (op.precedence + 1) hsecond (Nat.le_refl _)
    hrest fun op' hop' => Nat.le_succ_of_le (hop op' hop')
  rw [outcome_operators_stop fun op' hop' => Nat.lt_succ_of_le (hop op' hop')] at hright
  refine ⟨.binary token.position op lhs' rhs',
    by rw [Expr.unplaced, hlhs', hrhs', Expr.unplaced], ?_⟩
  rw [List.append_assoc, List.cons_append, hleft, outcome_operators_step hfront hleast hright]

/-- The tokens of an expression are read back. -/
theorem Expr.Printable.reads {value : Expr} (h : value.Printable) :
    Reads splice line value.tightness value.kinds value := by
  have whole {value : Expr} (h : Reads splice line value.tightness value.kinds value) :
      ReadsExpression splice line value.kinds value := h.expression value.tightness_pos
  have operand {value : Expr} (h : Reads splice line value.tightness value.kinds value) :=
    (h.guarded value.tightness_pos operandTightness).operand (Nat.le_refl _)
  induction h with
  | number =>
    refine .of_operand (readsOperand_single fun token _ hkind _ => ?_) _
    exact ⟨.number token.position _, rfl, outcome_primary_number hkind⟩
  | bool => exact .of_operand readsOperand_bool _
  | text =>
    refine .of_operand (readsOperand_single fun token _ hkind _ => ?_) _
    exact ⟨.text token.position _, rfl, outcome_primary_text hkind⟩
  | name hplain => exact .of_operand (readsOperand_name _ hplain) _
  | array _ ih => exact .of_operand (readsOperand_array fun item hmem => whole (ih item hmem)) _
  | @binary position op lhs rhs _ _ ihl ihr =>
    have hlhs := (ihl.guarded lhs.tightness_pos op.precedence).binary
    have hrhs := (ihr.guarded rhs.tightness_pos (op.precedence + 1)).binary
    exact .of_binary (readsBinary_binary hlhs hrhs) op.precedence_lt
  | @unary position op value _ ih =>
    have hoperand := (ih.guarded value.tightness_pos unaryTightness).unary (Nat.le_refl _)
    exact .of_unary (readsUnary_unary hoperand)
  | member _ ih => exact .of_operand (readsOperand_member (operand ih)) _
  | call _ _ hnamed ih ihs =>
    have harguments := fun argument hmem => whole (ihs argument hmem)
    exact .of_operand (readsOperand_call (operand ih) harguments hnamed) _
  | construct hplain _ hnamed _ iha ihp =>
    have harguments := fun argument hmem => whole (iha argument hmem)
    have hproperties := fun property hmem => whole (ihp property hmem)
    exact .of_operand (readsOperand_construct hplain harguments hnamed hproperties) _

theorem Expr.Printable.readsExpression {value : Expr} (h : value.Printable) :
    ReadsExpression splice line value.kinds value :=
  h.reads.expression value.tightness_pos

end Animatic.Script
