import Animatic.Proofs.Script.Levels

/-!
# Reading lists back

The lists of the grammar that stand inside an expression or in front of a body: items of an array,
arguments, properties and parameters. Each is read back if the values in it are.
-/

namespace Animatic.Script

variable {splice : Position → List Char → Except Diagnostic (List Part)} {line : Nat}
  {kinds : List Token.Kind} {value : Expr}

/-! ## Lists of the grammar -/

/-- The items of an array. -/
def itemListing (splice : Position → List Char → Except Diagnostic (List Part)) :
    Listing Expr Expr (Except Diagnostic (List Expr × List Token)) where
  read _ tokens := (expressionList splice .rightBracket "']'" tokens).outcome
  result items rest := .ok (items, rest)
  mark := .comma
  close := .mark .rightBracket
  isNamed _ := false
  view := Expr.unplaced
  kinds := Expr.kinds

/-- The arguments of a call. -/
def argumentListing (splice : Position → List Char → Except Diagnostic (List Part)) :
    Listing Argument Argument (Except Diagnostic (List Argument × List Token)) where
  read seen tokens := (argumentList splice seen tokens).outcome
  result items rest := .ok (items, rest)
  mark := .comma
  close := .mark .rightParen
  isNamed := Argument.isNamed
  view := Argument.unplaced
  kinds := Argument.kinds

/-- The properties in a constructor's braces. -/
def propertyListing (splice : Position → List Char → Except Diagnostic (List Part)) :
    Listing PropertyInit PropertyInit (Except Diagnostic (List PropertyInit × List Token)) where
  read _ tokens := (propertyList splice tokens).outcome
  result items rest := .ok (items, rest)
  mark := .comma
  close := .mark .rightBrace
  isNamed _ := false
  view := PropertyInit.unplaced
  kinds := PropertyInit.kinds

/-- The parameters of a function. -/
def parameterListing : Listing String String (Except Diagnostic (List String × List Token)) where
  read _ tokens := (parameterList tokens).outcome
  result names rest := .ok (names, rest)
  mark := .comma
  close := .mark .rightParen
  isNamed _ := false
  view := id
  kinds name := [.name name]

theorem readsItem_item {item : Expr} (h : ReadsExpression splice line item.kinds item) :
    (itemListing splice).ReadsItem line item where
  last := by
    intro seen tokens token rest _ hwritten hclose
    obtain ⟨item', hitem, hread⟩ := h tokens (token :: rest) hwritten (ends_cons hclose rfl)
    have hopen : ¬ startsWith .rightBracket (tokens ++ token :: rest) :=
      (opens_of_expression hread).not_startsWith rfl
    exact ⟨item', hitem, outcome_expressionList_last hopen hread hclose (by decide)⟩
  more := by
    intro seen tokens token rest others rest₁ _ hwritten hcomma hothers
    obtain ⟨item', hitem, hread⟩ := h tokens (token :: rest) hwritten (ends_cons hcomma rfl)
    have hopen : ¬ startsWith .rightBracket (tokens ++ token :: rest) :=
      (opens_of_expression hread).not_startsWith rfl
    exact ⟨item', hitem, outcome_expressionList_more hopen hread hcomma hothers⟩

theorem readsItem_property {property : PropertyInit}
    (h : ReadsExpression splice line property.value.kinds property.value) :
    (propertyListing splice).ReadsItem line property := by
  obtain ⟨name, value⟩ := property
  constructor
  · intro seen tokens token rest _ hwritten hclose
    obtain ⟨key, rest₁, rfl, hkey, -, hrest₁⟩ := Written.cons hwritten
    obtain ⟨colon, inner, rfl, hcolon, -, hinner⟩ := hrest₁.cons
    obtain ⟨value', hvalue, hread⟩ := h inner (token :: rest) hinner (ends_cons hclose rfl)
    exact ⟨.mk name value', congrArg (PropertyInit.mk name) hvalue,
      outcome_propertyList_last (.inr hkey) hcolon hread hclose⟩
  · intro seen tokens token rest others rest₁ _ hwritten hcomma hothers
    obtain ⟨key, rest₁, rfl, hkey, -, hrest₁⟩ := Written.cons hwritten
    obtain ⟨colon, inner, rfl, hcolon, -, hinner⟩ := hrest₁.cons
    obtain ⟨value', hvalue, hread⟩ := h inner (token :: rest) hinner (ends_cons hcomma rfl)
    exact ⟨.mk name value', congrArg (PropertyInit.mk name) hvalue,
      outcome_propertyList_more (.inr hkey) hcolon hread hcomma hothers⟩

theorem readsItem_parameter (name : String) : parameterListing.ReadsItem line name where
  last := by
    intro seen tokens token rest _ hwritten hclose
    obtain ⟨word, rfl, hword⟩ := Written.single hwritten
    exact ⟨name, rfl, outcome_parameterList_last hword hclose⟩
  more := by
    intro seen tokens token rest others rest₁ _ hwritten hcomma hothers
    obtain ⟨word, rfl, hword⟩ := Written.single hwritten
    exact ⟨name, rfl, outcome_parameterList_more hword hcomma hothers⟩

/-- Behind a name in front of which an expression begins, the expression ends at a colon. -/
private theorem outcome_expression_name
    (splice : Position → List Char → Except Diagnostic (List Part)) {name colon : Token}
    {word : String} (hname : name.kind = .name word) (hcolon : colon.kind = .mark .colon)
    (rest : List Token) :
    ∃ value, (expression splice true (name :: colon :: rest)).outcome =
      .ok (value, colon :: rest) := by
  have hends : Ends (colon :: rest) := ends_cons hcolon rfl
  have hunary : (front (name :: colon :: rest)).unaryOp? = none := by
    rw [front, List.headD_cons, Token.unaryOp?, hname]
  have hprimary : ∃ value, (primary splice true (name :: colon :: rest)).outcome =
      .ok (value, colon :: rest) := by
    by_cases hword : word = "true" ∨ word = "false"
    · exact ⟨_, outcome_primary_bool hname hword⟩
    · rw [not_or] at hword
      exact ⟨_, outcome_primary_name hname hword.1 hword.2 fun _ _ h =>
        hends.not_extends (.inr (.inr ⟨rfl, h⟩))⟩
  obtain ⟨value, hprimary⟩ := hprimary
  exact ⟨value, outcome_expression_operand hunary hprimary
    (outcome_suffixes_stop hends.not_extends) hends⟩

/-- An argument is read back in front of a token that ends it and is no colon. -/
private theorem outcome_argument {argument : Argument}
    (h : ReadsExpression splice line argument.value.kinds argument.value) {seen : Bool}
    (hseen : seen = true → argument.isNamed = true) {tokens rest : List Token} {token : Token}
    (hwritten : Written line argument.kinds tokens) (hends : Ends (token :: rest))
    (hcolon : token.kind ≠ .mark .colon) :
    ∃ argument' : Argument, argument'.unplaced = argument.unplaced ∧
      argument'.isNamed = argument.isNamed ∧ Opens (tokens ++ token :: rest) ∧
      (Script.argument splice seen (tokens ++ token :: rest)).outcome =
        .ok (argument', token :: rest) := by
  cases argument with
  | named name value =>
    obtain ⟨word, rest₁, rfl, hword, -, hrest₁⟩ := Written.cons hwritten
    obtain ⟨colon, inner, rfl, hmark, -, hinner⟩ := hrest₁.cons
    obtain ⟨value', hvalue, hread⟩ := h inner (token :: rest) hinner hends
    have hopens : Opens (word :: (colon :: inner ++ token :: rest)) := by
      rw [Opens, front, List.headD_cons, hword]
      rfl
    exact ⟨.named name value', congrArg (Argument.named name) hvalue, rfl, hopens,
      outcome_argument_named hword hmark hread⟩
  | positional value =>
    obtain rfl : seen = false := Bool.eq_false_iff.mpr fun h => Bool.noConfusion (hseen h)
    obtain ⟨value', hvalue, hread⟩ := h tokens (token :: rest) hwritten hends
    refine ⟨.positional value', congrArg Argument.positional hvalue, rfl,
      opens_of_expression hread, ?_⟩
    refine outcome_argument_positional (fun name colon others word heq hname hmark => ?_) hread
    -- such an expression would be the name alone, with the colon behind it
    obtain ⟨_, hname⟩ := outcome_expression_name splice hname hmark others
    rw [heq, hname] at hread
    obtain ⟨-, hrest⟩ := Prod.mk.inj (Except.ok.inj hread)
    exact hcolon ((List.cons.inj hrest).1 ▸ hmark)

theorem readsItem_argument {argument : Argument}
    (h : ReadsExpression splice line argument.value.kinds argument.value) :
    (argumentListing splice).ReadsItem line argument where
  last := by
    intro seen tokens token rest hseen hwritten hclose
    have hcolon : token.kind ≠ .mark .colon := fun hcolon =>
      Mark.noConfusion (Token.Kind.mark.inj (hclose.symm.trans hcolon))
    have hends : Ends (token :: rest) := ends_cons hclose rfl
    obtain ⟨argument', hargument, -, hopens, hread⟩ :=
      outcome_argument h hseen hwritten hends hcolon
    exact ⟨argument', hargument,
      outcome_argumentList_last (hopens.not_startsWith rfl) hread hclose⟩
  more := by
    intro seen tokens token rest others rest₁ hseen hwritten hcomma hothers
    have hcolon : token.kind ≠ .mark .colon := fun hcolon =>
      Mark.noConfusion (Token.Kind.mark.inj (hcomma.symm.trans hcolon))
    have hends : Ends (token :: rest) := ends_cons hcomma rfl
    obtain ⟨argument', hargument, hnamed, hopens, hread⟩ :=
      outcome_argument h hseen hwritten hends hcolon
    refine ⟨argument', hargument,
      outcome_argumentList_more (hopens.not_startsWith rfl) hread hcomma ?_⟩
    rw [hnamed]
    exact hothers

/-! ## Whole lists -/

variable {tokens : List Token} {token : Token}

theorem outcome_items {items : List Expr}
    (hitems : ∀ item ∈ items, ReadsExpression splice line item.kinds item)
    (hwritten : Written line (separated .comma (Expr.allKinds items)) tokens)
    (hclose : token.kind = .mark .rightBracket) (rest : List Token) :
    ∃ items', Expr.allUnplaced items' = Expr.allUnplaced items ∧
      (expressionList splice .rightBracket "']'" (tokens ++ token :: rest)).outcome =
        .ok (items', rest) := by
  rw [Expr.allKinds_eq] at hwritten
  simp only [Expr.allUnplaced_eq]
  exact (itemListing splice).reads_unnamed line (fun _ _ _ h => outcome_expressionList_nil h)
    (fun item hmem => readsItem_item (hitems item hmem)) hwritten hclose (fun _ => rfl) rest

theorem outcome_arguments {arguments : List Argument}
    (harguments : ∀ argument ∈ arguments,
      ReadsExpression splice line argument.value.kinds argument.value)
    (hnamed : NamedLast arguments)
    (hwritten : Written line (separated .comma (Argument.allKinds arguments)) tokens)
    (hclose : token.kind = .mark .rightParen) (rest : List Token) :
    ∃ arguments', Argument.allUnplaced arguments' = Argument.allUnplaced arguments ∧
      (argumentList splice false (tokens ++ token :: rest)).outcome = .ok (arguments', rest) := by
  rw [Argument.allKinds_eq] at hwritten
  simp only [Argument.allUnplaced_eq]
  exact (argumentListing splice).reads line (fun _ _ _ h => outcome_argumentList_nil h)
    (fun argument hmem => readsItem_argument (harguments argument hmem)) hwritten hclose hnamed
    (fun _ _ h => Bool.noConfusion h) rest

theorem outcome_properties {properties : List PropertyInit}
    (hproperties : ∀ property ∈ properties,
      ReadsExpression splice line property.value.kinds property.value)
    (hwritten : Written line (separated .comma (PropertyInit.allKinds properties)) tokens)
    (hclose : token.kind = .mark .rightBrace) (rest : List Token) :
    ∃ properties', PropertyInit.allUnplaced properties' = PropertyInit.allUnplaced properties ∧
      (propertyList splice (tokens ++ token :: rest)).outcome = .ok (properties', rest) := by
  rw [PropertyInit.allKinds_eq] at hwritten
  simp only [PropertyInit.allUnplaced_eq]
  exact (propertyListing splice).reads_unnamed line (fun _ _ _ h => outcome_propertyList_nil h)
    (fun property hmem => readsItem_property (hproperties property hmem)) hwritten hclose
    (fun _ => rfl) rest

theorem outcome_parameters {parameters : List String}
    (hwritten : Written line (separated .comma (parameters.map fun name => [.name name])) tokens)
    (hclose : token.kind = .mark .rightParen) (rest : List Token) :
    (parameterList (tokens ++ token :: rest)).outcome = .ok (parameters, rest) := by
  obtain ⟨parameters', hparameters, hread⟩ :=
    parameterListing.reads_unnamed line (fun _ _ _ h => outcome_parameterList_nil h)
      (fun name _ => readsItem_parameter name) hwritten hclose (fun _ => rfl) rest
  have hview : parameterListing.view = id := rfl
  rw [hview, List.map_id, List.map_id] at hparameters
  rw [← hparameters]
  exact hread

end Animatic.Script
