import Animatic.Proofs.Script.Reading

/-!
# Levels of the grammar

What it means that the grammar reads written tokens back as an expression, up to positions. An
operand is read together with its suffixes, a left operand together with the operators behind it:
there, what is read is said by what reading goes on with.

* `Reads`: what is read, for an expression that binds as tightly as a given number.
* `Reads.guarded`: with parentheses where they are needed, an expression binds tightly enough.
* `Listing.reads`: a list with a mark between its items is read back if each item is.
-/

namespace Animatic.Script

section

variable (splice : Position → List Char → Except Diagnostic (List Part)) (line : Nat)

/-- Tokens are read as an operand in front of its suffixes, of which a brace is none. -/
def ReadsOperand (kinds : List Token.Kind) (value : Expr) : Prop :=
  ∀ tokens rest, Written line kinds tokens → ¬ startsWith .leftBrace rest →
    ∃ value', value'.unplaced = value.unplaced ∧
      (postfixed splice true (tokens ++ rest)).outcome = (suffixes splice true value' rest).outcome

/-- Tokens are read as an operand of a binary operator. -/
def ReadsUnary (kinds : List Token.Kind) (value : Expr) : Prop :=
  ∀ tokens rest, Written line kinds tokens → ¬ Extends true rest →
    ∃ value', value'.unplaced = value.unplaced ∧
      (unary splice true (tokens ++ rest)).outcome = .ok (value', rest)

/-- Tokens are read as a left operand in front of operators that bind no more tightly than
`tightness`, by a reading that takes operators from such a number on. -/
def ReadsBinary (tightness : Nat) (kinds : List Token.Kind) (value : Expr) : Prop :=
  ∀ tokens rest least, Written line kinds tokens → least ≤ tightness → ¬ Extends true rest →
    (∀ op, (front rest).binaryOp? = some op → op.precedence ≤ tightness) →
    ∃ value', value'.unplaced = value.unplaced ∧
      (binary splice true least (tokens ++ rest)).outcome =
        (operators splice true least value' rest).outcome

/-- Tokens are read as an expression. -/
def ReadsExpression (kinds : List Token.Kind) (value : Expr) : Prop :=
  ∀ tokens rest, Written line kinds tokens → Ends rest →
    ∃ value', value'.unplaced = value.unplaced ∧
      (expression splice true (tokens ++ rest)).outcome = .ok (value', rest)

/-- Tokens are read as an expression whose outermost form binds as tightly as `tightness`. -/
structure Reads (tightness : Nat) (kinds : List Token.Kind) (value : Expr) : Prop where
  operand : operandTightness ≤ tightness → ReadsOperand splice line kinds value
  unary : unaryTightness ≤ tightness → ReadsUnary splice line kinds value
  binary : ReadsBinary splice line tightness kinds value

end

variable {splice : Position → List Char → Except Diagnostic (List Part)} {line : Nat}
  {kinds : List Token.Kind} {value : Expr} {tightness least : Nat}

/-! ## From one level to the next -/

theorem ReadsOperand.unary (h : ReadsOperand splice line kinds value) :
    ReadsUnary splice line kinds value := by
  intro tokens rest hwritten hrest
  have hbrace : ¬ startsWith .leftBrace rest := fun hbrace => hrest (.inr (.inr ⟨rfl, hbrace⟩))
  obtain ⟨value', hvalue, hread⟩ := h tokens rest hwritten hbrace
  rw [outcome_suffixes_stop hrest] at hread
  refine ⟨value', hvalue, ?_⟩
  cases htokens : tokens ++ rest with
  | nil =>
    rw [htokens] at hread
    rw [Script.unary, hread]
  | cons token others =>
    rw [htokens] at hread
    exact (outcome_unary_none (opens_of_postfixed hread).2).trans hread

theorem ReadsUnary.binary (h : ReadsUnary splice line kinds value) (tightness : Nat) :
    ReadsBinary splice line tightness kinds value := by
  intro tokens rest least hwritten _ hrest _
  obtain ⟨value', hvalue, hread⟩ := h tokens rest hwritten hrest
  exact ⟨value', hvalue, outcome_binary hread⟩

theorem Reads.of_operand (h : ReadsOperand splice line kinds value) (tightness : Nat) :
    Reads splice line tightness kinds value where
  operand _ := h
  unary _ := h.unary
  binary := h.unary.binary tightness

theorem Reads.of_unary (h : ReadsUnary splice line kinds value) :
    Reads splice line unaryTightness kinds value where
  operand htight := absurd htight (by decide)
  unary _ := h
  binary := h.binary unaryTightness

theorem Reads.of_binary (h : ReadsBinary splice line tightness kinds value)
    (htight : tightness < unaryTightness) : Reads splice line tightness kinds value where
  operand hoperand := absurd (Nat.le_trans (by decide) hoperand) (Nat.not_le.mpr htight)
  unary hunary := absurd hunary (Nat.not_le.mpr htight)
  binary := h

theorem Reads.weaken (h : Reads splice line tightness kinds value) (hle : least ≤ tightness) :
    Reads splice line least kinds value where
  operand hoperand := h.operand (Nat.le_trans hoperand hle)
  unary hunary := h.unary (Nat.le_trans hunary hle)
  binary tokens rest least' hwritten hleast hrest hop :=
    h.binary tokens rest least' hwritten (Nat.le_trans hleast hle) hrest fun op hfront =>
      Nat.le_trans (hop op hfront) hle

/-- Every operator binds at least as tightly as the loosest reading asks for. -/
theorem Reads.expression (h : Reads splice line tightness kinds value) (hpos : 1 ≤ tightness) :
    ReadsExpression splice line kinds value := by
  intro tokens rest hwritten hrest
  have hnone : ∀ op, (front rest).binaryOp? ≠ some op := fun op hop => by
    rw [hrest.binaryOp?] at hop
    cases hop
  obtain ⟨value', hvalue, hread⟩ := h.binary tokens rest 1 hwritten hpos hrest.not_extends
    fun op hop => absurd hop (hnone op)
  refine ⟨value', hvalue, ?_⟩
  rw [outcome_expression, hread, outcome_operators_stop fun op hop => absurd hop (hnone op)]

/-! ## Parentheses -/

theorem ReadsExpression.primary (h : ReadsExpression splice line kinds value) {constructors : Bool}
    {tokens : List Token} (hwritten : Written line (inParens kinds) tokens) (rest : List Token) :
    ∃ value', value'.unplaced = value.unplaced ∧
      (primary splice constructors (tokens ++ rest)).outcome = .ok (value', rest) := by
  obtain ⟨opening, inner, closing, rfl, hopening, hinner, hclosing⟩ := hwritten.inParens
  obtain ⟨value', hvalue, hread⟩ := h inner (closing :: rest) hinner (ends_cons hclosing rfl)
  refine ⟨value', hvalue, ?_⟩
  rw [List.cons_append, List.append_assoc, List.singleton_append]
  exact outcome_primary_parens hopening hread hclosing

theorem ReadsExpression.inParens (h : ReadsExpression splice line kinds value) :
    ReadsOperand splice line (inParens kinds) value := by
  intro tokens rest hwritten _
  obtain ⟨value', hvalue, hread⟩ := h.primary hwritten rest
  exact ⟨value', hvalue, outcome_postfixed hread⟩

/-- Where it is needed, an expression in parentheses binds as tightly as an operand. -/
theorem Reads.guarded (h : Reads splice line tightness kinds value) (hpos : 1 ≤ tightness)
    (least : Nat) :
    Reads splice line least (guarded tightness least kinds) value := by
  by_cases hless : tightness < least
  · rw [Script.guarded, if_pos hless]
    exact Reads.of_operand (h.expression hpos).inParens least
  · rw [Script.guarded, if_neg hless]
    exact h.weaken (Nat.not_lt.mp hless)

/-! ## Lists -/

/-- A list as the grammar reads it: items with a mark between them, in front of a token that closes
it. Reading may depend on whether the last item was a named one. -/
structure Listing (ι κ ρ : Type) where
  read : Bool → List Token → ρ
  /-- What reading gives for some items, with the tokens behind the list. -/
  result : List ι → List Token → ρ
  mark : Mark
  close : Token.Kind
  isNamed : ι → Bool
  /-- What reading keeps of an item. -/
  view : ι → κ
  kinds : ι → List Token.Kind

namespace Listing

variable {ι κ ρ : Type} (l : Listing ι κ ρ) (line)

/-- An item is read back, as the last one of a list and in front of others. -/
structure ReadsItem (item : ι) : Prop where
  last : ∀ seen tokens token rest, (seen = true → l.isNamed item = true) →
    Written line (l.kinds item) tokens → token.kind = l.close →
    ∃ item', l.view item' = l.view item ∧ l.read seen (tokens ++ token :: rest) = l.result [item'] rest
  more : ∀ seen tokens token rest others rest₁, (seen = true → l.isNamed item = true) →
    Written line (l.kinds item) tokens → token.kind = .mark l.mark →
    l.read (l.isNamed item) rest = l.result others rest₁ →
    ∃ item', l.view item' = l.view item ∧
      l.read seen (tokens ++ token :: rest) = l.result (item' :: others) rest₁

section

variable
  (hnil : ∀ seen token rest, token.kind = l.close → l.read seen (token :: rest) = l.result [] rest)
  {items : List ι} (hitems : ∀ item ∈ items, l.ReadsItem line item) {seen : Bool}
  {tokens : List Token} {token : Token}
  (hwritten : Written line (separated l.mark (items.map l.kinds)) tokens)
  (hclose : token.kind = l.close)

include hnil hitems hwritten hclose

/-- Items are read back, the named ones behind the others. -/
theorem reads
    (hnamed : items.Pairwise fun first later => l.isNamed first = true → l.isNamed later = true)
    (hseen : ∀ item ∈ items, seen = true → l.isNamed item = true) (rest : List Token) :
    ∃ items', items'.map l.view = items.map l.view ∧
      l.read seen (tokens ++ token :: rest) = l.result items' rest := by
  induction items generalizing seen tokens with
  | nil =>
    obtain rfl := Written.nil hwritten
    exact ⟨[], rfl, hnil seen token rest hclose⟩
  | cons item others ih =>
    rw [List.forall_mem_cons] at hitems hseen
    rw [List.pairwise_cons] at hnamed
    cases others with
    | nil =>
      obtain ⟨item', hitem, hread⟩ := hitems.1.last seen tokens token rest hseen.1 hwritten hclose
      refine ⟨[item'], ?_, hread⟩
      rw [List.map_singleton, hitem, List.map_singleton]
    | cons next others =>
      obtain ⟨first, behind, rfl, hfirst, hbehind⟩ := Written.append hwritten
      obtain ⟨mark, second, rfl, hmark, -, hsecond⟩ := hbehind.cons
      obtain ⟨others', hothers, hrest⟩ := ih hitems.2 hsecond hnamed.2 hnamed.1
      obtain ⟨item', hitem, hread⟩ :=
        hitems.1.more seen first mark (second ++ token :: rest) others' rest hseen.1 hfirst hmark
          hrest
      refine ⟨item' :: others', by rw [List.map_cons, hitem, hothers]; rfl, ?_⟩
      rw [List.append_assoc, List.cons_append, hread]

/-- Items of which none is named are read back. -/
theorem reads_unnamed (hunnamed : ∀ item, l.isNamed item = false) (rest : List Token) :
    ∃ items', items'.map l.view = items.map l.view ∧
      l.read false (tokens ++ token :: rest) = l.result items' rest := by
  refine l.reads line hnil hitems hwritten hclose (List.pairwise_of_forall fun first _ h => ?_)
    (fun _ _ h => Bool.noConfusion h) rest
  rw [hunnamed first] at h
  cases h

end

end Listing

end Animatic.Script
