import Animatic.Proofs.Script.Reading

/-!
# What has been read stands

What the grammar reads from the front of some tokens does not depend on what stands behind the token
that follows, and stands when the tokens end there. What it cannot read is a problem of syntax.

* `Curtails`: some tokens, or as many of them as there are in front of an early end.
* `Read.Ends`: what a reading gives, or that it ends with a syntax problem.
* `Stands`: a reading takes some tokens, and does so whatever is cut off behind them.
* `expression_stands`, `statement_stands`: the rules of the grammar do so.
-/

namespace Animatic.Script

variable {α β γ : Type} {n m : Nat}

/-! ## Tokens that are cut off -/

/-- The first tokens are the second ones, or as many of them as there are in front of an early
end. -/
inductive Curtails : List Token → List Token → Prop where
  | finish {short : List Token} (tokens : List Token) (h : (front short).isFinish = true) :
      Curtails short tokens
  | cons {short tokens : List Token} (token : Token) (h : Curtails short tokens) :
      Curtails (token :: short) (token :: tokens)

namespace Curtails

variable {short tokens : List Token} {mark : Mark}

theorem refl (tokens : List Token) : Curtails tokens tokens := by
  induction tokens with
  | nil => exact .finish [] rfl
  | cons token rest ih => exact .cons token ih

theorem prepend (taken : List Token) (h : Curtails short tokens) :
    Curtails (taken ++ short) (taken ++ tokens) := by
  induction taken with
  | nil => exact h
  | cons token rest ih => exact .cons token ih

theorem front_or (h : Curtails short tokens) :
    front short = front tokens ∨ (front short).isFinish = true := by
  cases h with
  | finish _ h => exact .inr h
  | cons => exact .inl rfl

/-- A token that is no end stands in front of the tokens that are cut as well. -/
theorem tail {token : Token} {rest : List Token} (h : Curtails (token :: rest) tokens)
    (hfinish : token.kind ≠ .finish) :
    ∃ others, tokens = token :: others ∧ Curtails rest others := by
  cases h with
  | finish _ h => exact absurd (isFinish_iff.mp h) hfinish
  | cons _ h => exact ⟨_, rfl, h⟩

theorem front_eq (h : Curtails short tokens) (hfinish : (front short).kind ≠ .finish) :
    front short = front tokens :=
  h.front_or.resolve_right fun h => hfinish (isFinish_iff.mp h)

theorem not_startsWith (h : Curtails short tokens) (hmark : ¬ startsWith mark tokens) :
    ¬ startsWith mark short := by
  intro hshort
  rcases h.front_or with heq | hfinish
  · rw [startsWith, heq] at hshort
    exact hmark hshort
  · exact Token.Kind.noConfusion ((isFinish_iff.mp hfinish).symm.trans hshort)

end Curtails

/-! ## Readings and their ends -/

/-- What a reading gives, if it does not end with a syntax problem. -/
def Read.Ends (r : Read α n) (P : α → List Token → Prop) : Prop :=
  (∀ value rest, r.outcome = .ok (value, rest) → P value rest) ∧
    ∀ d, r.outcome = .error d → d.problem.kind = .syntactic

theorem Read.ends_ok {P : α → List Token → Prop} {reading : Reading α n}
    (h : P reading.value reading.rest) : Read.Ends (.ok reading) P := by
  refine ⟨fun value rest heq => ?_, nofun⟩
  obtain ⟨rfl, rfl⟩ := Prod.mk.inj (Except.ok.inj heq)
  exact h

theorem Read.ends_error {P : α → List Token → Prop} {d : Diagnostic}
    (h : d.problem.kind = .syntactic) : Read.Ends (.error d : Read α n) P := by
  refine ⟨nofun, fun other heq => ?_⟩
  obtain rfl := Except.error.inj heq
  exact h

theorem Read.Ends.bind {r : Read α n} {next : Reading α n → Read β m}
    {P : α → List Token → Prop} {Q : β → List Token → Prop} (h : r.Ends P)
    (hnext : ∀ value rest shorter, P value rest → Read.Ends (next ⟨value, rest, shorter⟩) Q) :
    Read.Ends (r >>= next) Q := by
  cases r with
  | error d => exact Read.ends_error (h.2 d rfl)
  | ok reading => exact hnext _ _ _ (h.1 _ _ rfl)

theorem Read.Ends.imp {r : Read α n} {P Q : α → List Token → Prop} (h : r.Ends P)
    (himp : ∀ value rest, P value rest → Q value rest) : r.Ends Q :=
  ⟨fun value rest heq => himp value rest (h.1 value rest heq), h.2⟩

theorem Read.Ends.congr {r : Read α n} {r' : Read α m} {P : α → List Token → Prop} (h : r.Ends P)
    (heq : r'.outcome = r.outcome) : r'.Ends P :=
  ⟨fun value rest hread => h.1 value rest (heq ▸ hread), fun d hread => h.2 d (heq ▸ hread)⟩

/-- A reading takes some tokens for a value, and does so whatever is cut off behind them. -/
def Stands {bound : List Token → Nat} (read : (tokens : List Token) → Read α (bound tokens))
    (tokens : List Token) (value : α) (rest : List Token) : Prop :=
  ∃ taken, tokens = taken ++ rest ∧
    ∀ short, Curtails short rest → (read (taken ++ short)).outcome = .ok (value, short)

namespace Stands

variable {bound bound₁ bound₂ : List Token → Nat}
  {read : (tokens : List Token) → Read γ (bound tokens)}
  {first : (tokens : List Token) → Read α (bound₁ tokens)}
  {second : (tokens : List Token) → Read β (bound₂ tokens)}
  {tokens middle rest : List Token} {value : γ} {a : α} {b : β} {token : Token}

/-- A reading that takes nothing. -/
theorem nothing (h : ∀ short, Curtails short tokens → (read short).outcome = .ok (value, short)) :
    Stands read tokens value tokens :=
  ⟨[], rfl, h⟩

/-- A reading that takes one token. -/
theorem single
    (h : ∀ short, Curtails short rest → (read (token :: short)).outcome = .ok (value, short)) :
    Stands read (token :: rest) value rest :=
  ⟨[token], rfl, h⟩

/-- A reading that does what another one does, with some tokens in front and behind. -/
theorem around (lead trail : List Token) (h : Stands first tokens a (trail ++ rest))
    (hread : ∀ tokens' rest', Curtails tokens' tokens → Curtails rest' rest →
      (first tokens').outcome = .ok (a, trail ++ rest') →
        (read (lead ++ tokens')).outcome = .ok (value, rest')) :
    Stands read (lead ++ tokens) value rest := by
  obtain ⟨taken, rfl, hfirst⟩ := h
  refine ⟨lead ++ (taken ++ trail), by simp only [List.append_assoc], fun short hshort => ?_⟩
  have hcut := hshort.prepend trail
  rw [List.append_assoc, List.append_assoc]
  exact hread _ _ (hcut.prepend taken) hshort (hfirst _ hcut)

/-- A reading that does what two others do one after the other, with some tokens in front and
between. -/
theorem append (lead between : List Token) (h : Stands first tokens a (between ++ middle))
    (h' : Stands second middle b rest)
    (hread : ∀ tokens' middle' rest', Curtails tokens' tokens → Curtails rest' rest →
      (first tokens').outcome = .ok (a, between ++ middle') →
        (second middle').outcome = .ok (b, rest') →
          (read (lead ++ tokens')).outcome = .ok (value, rest')) :
    Stands read (lead ++ tokens) value rest := by
  obtain ⟨taken, rfl, hsecond⟩ := h'
  rw [← List.append_assoc] at h
  refine around lead (between ++ taken) h fun tokens' rest' htokens hrest hfirst => ?_
  rw [List.append_assoc] at hfirst
  exact hread _ _ _ htokens hrest hfirst (hsecond rest' hrest)

/-- The token in front of what is taken stays in front. -/
theorem exists_token (h : Stands first tokens a rest) (hlt : rest.length < tokens.length) :
    ∃ token taken, tokens = token :: (taken ++ rest) ∧ ∀ short, Curtails short rest →
      (first (token :: (taken ++ short))).outcome = .ok (a, short) := by
  obtain ⟨taken, rfl, hread⟩ := h
  cases taken with
  | nil => exact absurd hlt (Nat.lt_irrefl _)
  | cons token taken => exact ⟨token, taken, rfl, hread⟩

end Stands

/-! ## Marks and names -/

theorem takeMark_ends (mark : Mark) (what : String) (tokens : List Token) :
    (takeMark mark what tokens).Ends fun _ rest =>
      ∃ token, tokens = token :: rest ∧ token.kind = .mark mark := by
  rw [takeMark]
  split
  · rename_i reading hmark
    exact Read.ends_ok (mark?_eq_some hmark)
  · exact Read.ends_error rfl

theorem takeName_ends (tokens : List Token) :
    (takeName tokens).Ends fun name rest =>
      ∃ token, tokens = token :: rest ∧ token.kind = .name name := by
  unfold takeName
  split
  · exact Read.ends_ok ⟨_, rfl, rfl⟩
  · exact Read.ends_error rfl

theorem takePropertyName_ends (tokens : List Token) :
    (takePropertyName tokens).Ends fun name rest => ∃ token, tokens = token :: rest ∧
      (token.kind = .name name ∨ token.kind = .literal .verbatim name) := by
  unfold takePropertyName
  split
  · exact Read.ends_ok ⟨_, rfl, .inl rfl⟩
  · exact Read.ends_ok ⟨_, rfl, .inr rfl⟩
  · exact Read.ends_error rfl

theorem parameterList_stands (tokens : List Token) :
    (parameterList tokens).Ends (Stands parameterList tokens) := by
  rw [parameterList]
  cases hclose : mark? .rightParen tokens with
  | some reading =>
    obtain ⟨_, rest, h⟩ := reading
    obtain ⟨close, rfl, hkind⟩ := mark?_eq_some hclose
    exact Read.ends_ok (.single fun _ _ => outcome_parameterList_nil hkind)
  | none =>
    refine (takeName_ends tokens).bind ?_
    rintro name rest₁ h₁ ⟨word, rfl, hname⟩
    dsimp only
    cases hcomma : mark? .comma rest₁ with
    | some reading =>
      obtain ⟨_, rest₂, h₂⟩ := reading
      obtain ⟨comma, rfl, hkind⟩ := mark?_eq_some hcomma
      refine (parameterList_stands rest₂).bind fun names rest₃ h₃ hnames => ?_
      exact Read.ends_ok (hnames.around [word, comma] [] fun _ _ _ _ hread =>
        outcome_parameterList_more hname hkind hread)
    | none =>
      refine (takeMark_ends _ _ rest₁).bind ?_
      rintro _ rest₂ h₂ ⟨close, rfl, hkind⟩
      refine Read.ends_ok ⟨[word, close], rfl, fun _ _ => ?_⟩
      exact outcome_parameterList_last hname hkind
termination_by tokens.length

/-! ## Ends of lines -/

/-- A `return` is followed by its value where the tokens are cut if it is at all. -/
private theorem returnsValue_curtails {line : Nat} {short tokens : List Token}
    (h : Curtails short tokens) :
    returnsValue line short =
      if (front short).isFinish then false else returnsValue line tokens := by
  split
  · rename_i hfinish
    rw [returnsValue, hfinish, Bool.or_true, Bool.not_true, Bool.and_false]
  · rename_i hfinish
    rw [returnsValue, h.front_or.resolve_right hfinish, returnsValue]

/-! ## Expressions -/

section

variable {splice : Position → List Char → Except Diagnostic (List Part)}

/-- No operator that binds at least as tightly as `least` comes to the front by a cut. -/
private theorem operators_stop {constructors : Bool} {least : Nat} {lhs : Expr}
    {tokens : List Token} (h : ∀ op, (front tokens).binaryOp? = some op → op.precedence < least) :
    Stands (operators splice constructors least lhs) tokens lhs tokens := by
  refine .nothing fun short hshort => outcome_operators_stop fun op hop => ?_
  rcases hshort.front_or with heq | hfinish
  · exact h op (heq ▸ hop)
  · rw [Token.binaryOp?, isFinish_iff.mp hfinish] at hop
    cases hop

private theorem suffixes_stop {constructors : Bool} {value : Expr} {tokens : List Token}
    (h : ¬ Extends constructors tokens) :
    Stands (suffixes splice constructors value) tokens value tokens := by
  refine .nothing fun short hshort => outcome_suffixes_stop fun hextends => h ?_
  have hstarts {mark : Mark} (hmark : startsWith mark short) : startsWith mark tokens :=
    Classical.not_not.mp fun hnot => hshort.not_startsWith hnot hmark
  exact hextends.imp hstarts (.imp hstarts (.imp_right hstarts))

variable (hsplice : ∀ position text d, splice position text = .error d →
  d.problem.kind = .syntactic)

include hsplice

set_option linter.unusedSectionVars false in
mutual

theorem expression_stands (constructors : Bool) (tokens : List Token) :
    (expression splice constructors tokens).Ends
      (Stands (expression splice constructors) tokens) := by
  refine ((binary_stands constructors 1 tokens).congr outcome_expression).imp
    fun value rest hvalue => ?_
  exact hvalue.around [] [] fun _ _ _ _ hread => outcome_expression.trans hread
termination_by (tokens.length, 4)

private theorem binary_stands (constructors : Bool) (least : Nat) (tokens : List Token) :
    (binary splice constructors least tokens).Ends
      (Stands (binary splice constructors least) tokens) := by
  rw [binary]
  refine (unary_stands constructors tokens).bind fun lhs rest₁ h₁ hlhs => ?_
  refine (operators_stands constructors least lhs rest₁).bind fun value rest₂ h₂ hvalue => ?_
  exact Read.ends_ok (hlhs.append [] [] hvalue fun _ _ _ _ _ hlhs hvalue =>
    (outcome_binary hlhs).trans hvalue)
termination_by (tokens.length, 3)

private theorem operators_stands (constructors : Bool) (least : Nat) (lhs : Expr) :
    (tokens : List Token) → (operators splice constructors least lhs tokens).Ends
      (Stands (operators splice constructors least lhs) tokens)
  | [] => by
    rw [operators]
    exact Read.ends_ok (operators_stop nofun)
  | token :: rest => by
    rw [operators]
    cases hop : token.binaryOp? with
    | none =>
      refine Read.ends_ok (operators_stop fun op hfront => ?_)
      cases hop.symm.trans hfront
    | some op =>
      dsimp only
      split
      · rename_i hleast
        refine Read.ends_ok (operators_stop fun other hfront => ?_)
        obtain rfl := Option.some.inj (hop.symm.trans hfront)
        exact hleast
      · rename_i hleast
        refine (binary_stands constructors (op.precedence + 1) rest).bind
          fun rhs rest₁ h₁ hrhs => ?_
        refine (operators_stands constructors least (.binary token.position op lhs rhs) rest₁).bind
          fun value rest₂ h₂ hvalue => ?_
        exact Read.ends_ok (hrhs.append [token] [] hvalue fun _ _ _ _ _ hrhs hvalue =>
          (outcome_operators_step hop (Nat.le_of_not_lt hleast) hrhs).trans hvalue)
termination_by tokens => (tokens.length, 0)

private theorem unary_stands (constructors : Bool) : (tokens : List Token) →
    (unary splice constructors tokens).Ends (Stands (unary splice constructors) tokens)
  | [] => by
    rw [unary, postfixed, primary]
    exact Read.ends_error rfl
  | token :: rest => by
    cases hop : token.unaryOp? with
    | none =>
      have hcut {short : List Token} (h : Curtails short (token :: rest)) :
          (front short).unaryOp? = none := by
        rcases h.front_or with hfront | hfinish
        · exact hfront ▸ hop
        · rw [Token.unaryOp?, isFinish_iff.mp hfinish]
      refine ((postfixed_stands constructors (token :: rest)).congr
        (outcome_unary_none (hcut (.refl _)))).imp fun value rest₁ hvalue => ?_
      exact hvalue.around [] [] fun _ _ htokens _ hread =>
        (outcome_unary_none (hcut htokens)).trans hread
    | some op =>
      rw [unary, hop]
      refine (unary_stands constructors rest).bind fun operand rest₁ h₁ hoperand => ?_
      exact Read.ends_ok (hoperand.around [token] [] fun _ _ _ _ hoperand =>
        outcome_unary_some hop hoperand)
termination_by tokens => (tokens.length, 2)

private theorem postfixed_stands (constructors : Bool) (tokens : List Token) :
    (postfixed splice constructors tokens).Ends
      (Stands (postfixed splice constructors) tokens) := by
  rw [postfixed]
  refine (primary_stands constructors tokens).bind fun operand rest₁ h₁ hoperand => ?_
  refine (suffixes_stands constructors operand rest₁).bind fun value rest₂ h₂ hvalue => ?_
  exact Read.ends_ok (hoperand.append [] [] hvalue fun _ _ _ _ _ hoperand hvalue =>
    (outcome_postfixed hoperand).trans hvalue)
termination_by (tokens.length, 1)

private theorem suffixes_stands (constructors : Bool) (value : Expr) : (tokens : List Token) →
    (suffixes splice constructors value tokens).Ends
      (Stands (suffixes splice constructors value) tokens)
  | [] => by
    rw [suffixes]
    exact Read.ends_ok (suffixes_stop (by rintro (h | h | ⟨-, h⟩) <;> cases h))
  | token :: rest => by
    rw [suffixes]
    split
    · rename_i hdot
      refine (takeName_ends rest).bind ?_
      rintro name rest₁ h₁ ⟨word, rfl, hname⟩
      refine (suffixes_stands constructors (.member value.position value name) rest₁).bind
        fun longer rest₂ h₂ hlonger => ?_
      exact Read.ends_ok (hlonger.around [token, word] [] fun _ _ _ _ hread =>
        (outcome_suffixes_member (isMark_iff.mp hdot) hname).trans hread)
    split
    · rename_i hparen
      refine (argumentList_stands false rest).bind fun arguments rest₁ h₁ harguments => ?_
      refine (suffixes_stands constructors (.call value.position value arguments) rest₁).bind
        fun longer rest₂ h₂ hlonger => ?_
      exact Read.ends_ok (harguments.append [token] [] hlonger fun _ _ _ _ _ harguments hread =>
        (outcome_suffixes_call (isMark_iff.mp hparen) harguments).trans hread)
    rename_i hdot hparen
    split
    · rename_i hbrace
      rw [Bool.and_eq_true] at hbrace
      cases hhead : value.constructorHead? with
      | none =>
        refine Read.ends_ok (.nothing fun short hshort => outcome_suffixes_headless hhead ?_ ?_)
        · exact hshort.not_startsWith fun h => hdot (isMark_iff.mpr h)
        · exact hshort.not_startsWith fun h => hparen (isMark_iff.mpr h)
      | some head =>
        obtain ⟨typeName, arguments⟩ := head
        obtain ⟨hbrace, rfl⟩ := hbrace
        dsimp only
        refine (propertyList_stands rest).bind fun properties rest₁ h₁ hproperties => ?_
        refine (suffixes_stands true
          (.construct value.position typeName arguments properties) rest₁).bind
          fun longer rest₂ h₂ hlonger => ?_
        exact Read.ends_ok (hproperties.append [token] [] hlonger
          fun _ _ _ _ _ hproperties hread =>
            (outcome_suffixes_construct (isMark_iff.mp hbrace) hhead hproperties).trans hread)
    · rename_i hbrace
      refine Read.ends_ok (suffixes_stop ?_)
      rintro (h | h | ⟨rfl, h⟩)
      · exact hdot (isMark_iff.mpr h)
      · exact hparen (isMark_iff.mpr h)
      · exact hbrace (by rw [Bool.and_true]; exact isMark_iff.mpr h)
termination_by tokens => (tokens.length, 0)

private theorem primary_stands (constructors : Bool) : (tokens : List Token) →
    (primary splice constructors tokens).Ends (Stands (primary splice constructors) tokens)
  | [] => by
    rw [primary]
    exact Read.ends_error rfl
  | ⟨kind, text, position⟩ :: rest => by
    have hplain {value : Expr}
        (h : ∀ rest, (primary splice constructors (⟨kind, text, position⟩ :: rest)).outcome =
          .ok (value, rest)) :
        Stands (primary splice constructors) (⟨kind, text, position⟩ :: rest) value rest :=
      .single fun short _ => h short
    rw [primary]
    cases kind with
    | number value => exact Read.ends_ok (hplain fun rest => outcome_primary_number rfl)
    | literal style content =>
      cases style with
      | verbatim => exact Read.ends_ok (hplain fun rest => outcome_primary_text rfl)
      | names => exact Read.ends_ok (hplain fun rest => by rw [primary]; rfl)
      | expressions =>
        dsimp only
        cases hparts : splice position content.toList with
        | error d => exact Read.ends_error (hsplice _ _ _ hparts)
        | ok parts =>
          refine Read.ends_ok (hplain fun rest => ?_)
          rw [primary]
          dsimp only
          rw [hparts]
          rfl
    | name name =>
      dsimp only
      split
      · rename_i hbool
        refine Read.ends_ok (hplain fun rest => outcome_primary_bool rfl ?_)
        rw [Bool.or_eq_true, beq_iff_eq, beq_iff_eq] at hbool
        exact hbool
      · rename_i hbool
        rw [Bool.or_eq_true, beq_iff_eq, beq_iff_eq, not_or] at hbool
        have hname (hbrace : name = "Add" → constructors = true → ¬ startsWith .leftBrace rest) :
            Stands (primary splice constructors) (⟨.name name, text, position⟩ :: rest)
              (.name position name) rest :=
          .single fun short hshort => outcome_primary_name rfl hbool.1 hbool.2
            fun hadd hopens => hshort.not_startsWith (hbrace hadd hopens)
        by_cases hadd : (name == "Add" && constructors) = true
        · rw [if_pos hadd]
          rw [Bool.and_eq_true, beq_iff_eq] at hadd
          obtain ⟨rfl, rfl⟩ := hadd
          cases hmark : mark? .leftBrace rest with
          | none => exact Read.ends_ok (hname fun _ _ => not_startsWith_of_mark? hmark)
          | some reading =>
            obtain ⟨_, rest₁, h₁⟩ := reading
            obtain ⟨brace, rfl, hbrace⟩ := mark?_eq_some hmark
            have hclose : Mark.rightBrace ≠ .comma := by decide
            refine (expressionList_stands hclose _ rest₁).bind fun items rest₂ h₂ hitems => ?_
            exact Read.ends_ok (hitems.around [⟨.name "Add", text, position⟩, brace] []
              fun _ _ _ _ hitems => outcome_primary_add rfl hbrace hitems)
        · rw [if_neg hadd]
          rw [Bool.and_eq_true, beq_iff_eq, not_and] at hadd
          exact Read.ends_ok (hname fun hadd' hopens => absurd hopens (hadd hadd'))
    | mark mark =>
      cases mark with
      | leftBracket =>
        have hclose : Mark.rightBracket ≠ .comma := by decide
        refine (expressionList_stands hclose _ rest).bind fun items rest₁ h₁ hitems => ?_
        exact Read.ends_ok (hitems.around [⟨.mark .leftBracket, text, position⟩] []
          fun _ _ _ _ hitems => outcome_primary_array rfl hitems)
      | leftParen =>
        refine (expression_stands true rest).bind fun value rest₁ h₁ hvalue => ?_
        refine (takeMark_ends _ _ rest₁).bind ?_
        rintro _ rest₂ h₂ ⟨close, rfl, hclose⟩
        exact Read.ends_ok (hvalue.around [⟨.mark .leftParen, text, position⟩] [close]
          fun _ _ _ _ hvalue => outcome_primary_parens rfl hvalue hclose)
      | _ => exact Read.ends_error rfl
    | _ => exact Read.ends_error rfl
termination_by tokens => (tokens.length, 0)

private theorem expressionList_stands {close : Mark} (hclose : close ≠ .comma) (what : String)
    (tokens : List Token) :
    (expressionList splice close what tokens).Ends
      (Stands (expressionList splice close what) tokens) := by
  rw [expressionList]
  cases hmark : mark? close tokens with
  | some reading =>
    obtain ⟨_, rest, h⟩ := reading
    obtain ⟨last, rfl, hkind⟩ := mark?_eq_some hmark
    exact Read.ends_ok (.single fun _ _ => outcome_expressionList_nil hkind)
  | none =>
    have hopen := not_startsWith_of_mark? hmark
    refine (expression_stands true tokens).bind fun item rest₁ h₁ hitem => ?_
    dsimp only
    cases hcomma : mark? .comma rest₁ with
    | some reading =>
      obtain ⟨_, rest₂, h₂⟩ := reading
      obtain ⟨comma, rfl, hkind⟩ := mark?_eq_some hcomma
      refine (expressionList_stands hclose what rest₂).bind fun items rest₃ h₃ hitems => ?_
      exact Read.ends_ok (hitem.append [] [comma] hitems fun _ _ _ htokens _ hitem hitems =>
        outcome_expressionList_more (htokens.not_startsWith hopen) hitem hkind hitems)
    | none =>
      refine (takeMark_ends _ _ rest₁).bind ?_
      rintro _ rest₂ h₂ ⟨last, rfl, hkind⟩
      exact Read.ends_ok (hitem.around [] [last] fun _ _ htokens _ hitem =>
        outcome_expressionList_last (htokens.not_startsWith hopen) hitem hkind hclose)
termination_by (tokens.length, 5)

private theorem argumentList_stands (seenNamed : Bool) (tokens : List Token) :
    (argumentList splice seenNamed tokens).Ends
      (Stands (argumentList splice seenNamed) tokens) := by
  rw [argumentList]
  cases hclose : mark? .rightParen tokens with
  | some reading =>
    obtain ⟨_, rest, h⟩ := reading
    obtain ⟨last, rfl, hkind⟩ := mark?_eq_some hclose
    exact Read.ends_ok (.single fun _ _ => outcome_argumentList_nil hkind)
  | none =>
    have hopen := not_startsWith_of_mark? hclose
    refine (argument_stands seenNamed tokens).bind fun first rest₁ h₁ hfirst => ?_
    dsimp only
    cases hcomma : mark? .comma rest₁ with
    | some reading =>
      obtain ⟨_, rest₂, h₂⟩ := reading
      obtain ⟨comma, rfl, hkind⟩ := mark?_eq_some hcomma
      refine (argumentList_stands first.isNamed rest₂).bind fun others rest₃ h₃ hothers => ?_
      exact Read.ends_ok (hfirst.append [] [comma] hothers fun _ _ _ htokens _ hfirst hothers =>
        outcome_argumentList_more (htokens.not_startsWith hopen) hfirst hkind hothers)
    | none =>
      refine (takeMark_ends _ _ rest₁).bind ?_
      rintro _ rest₂ h₂ ⟨last, rfl, hkind⟩
      exact Read.ends_ok (hfirst.around [] [last] fun _ _ htokens _ hfirst =>
        outcome_argumentList_last (htokens.not_startsWith hopen) hfirst hkind)
termination_by (tokens.length, 6)

private theorem argument_stands (seenNamed : Bool) (tokens : List Token) :
    (argument splice seenNamed tokens).Ends (Stands (argument splice seenNamed) tokens) := by
  unfold argument
  split
  · rename_i name text position text' position' rest
    refine (expression_stands true rest).bind fun value rest₁ h₁ hvalue => ?_
    exact Read.ends_ok (hvalue.around
      [⟨.name name, text, position⟩, ⟨.mark .colon, text', position'⟩] []
      fun _ _ _ _ hvalue => outcome_argument_named rfl rfl hvalue)
  · rename_i hcolon
    split
    · exact Read.ends_error rfl
    · rename_i hpositional
      rw [Bool.not_eq_true] at hpositional
      subst hpositional
      refine (expression_stands true tokens).bind fun value rest₁ h₁ hvalue => ?_
      refine Read.ends_ok (hvalue.around [] [] fun tokens' _ htokens _ hvalue =>
        outcome_argument_positional ?_ hvalue)
      -- No name and colon come to the front by a cut: neither is an end.
      rintro ⟨_, text, position⟩ ⟨_, text', position'⟩ rest word rfl rfl rfl
      obtain ⟨others, rfl, hothers⟩ := htokens.tail nofun
      obtain ⟨behind, rfl, -⟩ := hothers.tail nofun
      exact hcolon _ _ _ _ _ _ rfl
termination_by (tokens.length, 5)

private theorem propertyList_stands (tokens : List Token) :
    (propertyList splice tokens).Ends (Stands (propertyList splice) tokens) := by
  rw [propertyList]
  cases hclose : mark? .rightBrace tokens with
  | some reading =>
    obtain ⟨_, rest, h⟩ := reading
    obtain ⟨last, rfl, hkind⟩ := mark?_eq_some hclose
    exact Read.ends_ok (.single fun _ _ => outcome_propertyList_nil hkind)
  | none =>
    refine (takePropertyName_ends tokens).bind ?_
    rintro name rest₁ h₁ ⟨key, rfl, hkey⟩
    refine (takeMark_ends _ _ rest₁).bind ?_
    rintro _ rest₂ h₂ ⟨colon, rfl, hcolon⟩
    refine (expression_stands true rest₂).bind fun value rest₃ h₃ hvalue => ?_
    dsimp only
    cases hcomma : mark? .comma rest₃ with
    | some reading =>
      obtain ⟨_, rest₄, h₄⟩ := reading
      obtain ⟨comma, rfl, hkind⟩ := mark?_eq_some hcomma
      refine (propertyList_stands rest₄).bind fun others rest₅ h₅ hothers => ?_
      exact Read.ends_ok (hvalue.append [key, colon] [comma] hothers
        fun _ _ _ _ _ hvalue hothers =>
          outcome_propertyList_more hkey hcolon hvalue hkind hothers)
    | none =>
      refine (takeMark_ends _ _ rest₃).bind ?_
      rintro _ rest₄ h₄ ⟨last, rfl, hkind⟩
      exact Read.ends_ok (hvalue.around [key, colon] [last] fun _ _ _ _ hvalue =>
        outcome_propertyList_last hkey hcolon hvalue hkind)
termination_by (tokens.length, 0)

end

/-! ## Statements -/

set_option linter.unusedSectionVars false in
mutual

theorem statement_stands (tokens : List Token) :
    (statement splice tokens).Ends (Stands (statement splice) tokens) := by
  unfold statement
  split
  · rename_i text position name text' position' rest
    refine (takeMark_ends _ _ rest).bind ?_
    rintro _ rest₁ h₁ ⟨paren, rfl, hparen⟩
    refine (parameterList_stands rest₁).bind fun parameters rest₂ h₂ hparameters => ?_
    refine (block_stands rest₂).bind fun body rest₃ h₃ hbody => ?_
    exact Read.ends_ok (hparameters.append
      [⟨.name "func", text, position⟩, ⟨.name name, text', position'⟩, paren] [] hbody
      fun _ _ _ _ _ hparameters hbody => outcome_statement_define rfl rfl hparen hparameters hbody)
  · rename_i text position rest
    refine (expression_stands hsplice false rest).bind fun count rest₁ h₁ hcount => ?_
    refine (block_stands rest₁).bind fun body rest₂ h₂ hbody => ?_
    exact Read.ends_ok (hcount.append [⟨.name "repeat", text, position⟩] [] hbody
      fun _ _ _ _ _ hcount hbody => outcome_statement_loop rfl hcount hbody)
  · rename_i text position rest
    refine (expression_stands hsplice true rest).bind fun seconds rest₁ h₁ hseconds => ?_
    exact Read.ends_ok (hseconds.around [⟨.name "wait", text, position⟩] []
      fun _ _ _ _ hseconds => outcome_statement_wait rfl hseconds)
  · rename_i text position rest
    split
    · rename_i hreturns
      refine (expression_stands hsplice true rest).bind fun value rest₁ h₁ hvalue => ?_
      -- A value that is still read behind a cut begins with the same token.
      have hcut {short behind : List Token} (h : Curtails short rest)
          (hread : (expression splice true short).outcome = .ok (value, behind)) :
          returnsValue position.line short = true := by
        have hfinish := (opens_of_expression hread).begins.2.2
        rw [returnsValue_curtails h, if_neg fun h => hfinish (isFinish_iff.mp h)]
        exact hreturns
      exact Read.ends_ok (hvalue.around [⟨.name "return", text, position⟩] []
        fun _ _ hrest _ hvalue => outcome_statement_leave_value rfl (hcut hrest hvalue) hvalue)
    · rename_i hreturns
      refine Read.ends_ok (.single fun short hshort => outcome_statement_leave rfl ?_)
      rw [returnsValue_curtails hshort, Bool.eq_false_iff.mpr hreturns, ite_self]
  · rename_i hfunc hrepeat hwait hreturn
    have hbare {short : List Token} (h : Curtails short tokens) : Bare short := by
      refine ⟨?_, ?_⟩
      · rintro ⟨kind, text, position⟩ rest rfl
        refine ⟨?_, ?_, ?_⟩
        all_goals
          rintro rfl
          obtain ⟨others, rfl, -⟩ := h.tail nofun
        · exact hrepeat _ _ _ rfl
        · exact hwait _ _ _ rfl
        · exact hreturn _ _ _ rfl
      · rintro ⟨_, text, position⟩ ⟨_, text', position'⟩ rest name rfl rfl rfl
        obtain ⟨others, rfl, hothers⟩ := h.tail nofun
        obtain ⟨behind, rfl, -⟩ := hothers.tail nofun
        exact hfunc _ _ _ _ _ _ rfl
    refine (expression_stands hsplice true tokens).bind fun target rest₁ h₁ htarget => ?_
    dsimp only
    have hfront {short behind : List Token} (h : Curtails short tokens)
        (hread : (expression splice true short).outcome = .ok (target, behind)) :
        (front short).position = (front tokens).position :=
      congrArg Token.position (h.front_eq (opens_of_expression hread).begins.2.2)
    cases hassign : mark? .assign rest₁ with
    | none =>
      have hnoAssign := not_startsWith_of_mark? hassign
      refine Read.ends_ok (htarget.around [] [] fun _ _ htokens hrest htarget => ?_)
      rw [← hfront htokens htarget]
      exact outcome_statement_expr (hbare htokens) htarget (hrest.not_startsWith hnoAssign)
    | some reading =>
      obtain ⟨_, rest₂, h₂⟩ := reading
      obtain ⟨assign, rfl, hkind⟩ := mark?_eq_some hassign
      dsimp only
      split
      · rename_i hassigned
        refine (expression_stands hsplice true rest₂).bind fun value rest₃ h₃ hvalue => ?_
        refine Read.ends_ok (htarget.append [] [assign] hvalue
          fun _ _ _ htokens _ htarget hvalue => ?_)
        rw [← hfront htokens htarget]
        exact outcome_statement_assign (hbare htokens) htarget hkind hassigned hvalue
      · exact Read.ends_error rfl
termination_by (tokens.length, 0)
decreasing_by all_goals (subst_vars; simp only [List.length_cons]; omega)

private theorem block_stands (tokens : List Token) :
    (block splice tokens).Ends (Stands (block splice) tokens) := by
  rw [block]
  refine (takeMark_ends _ _ tokens).bind ?_
  rintro _ rest₁ h₁ ⟨brace, rfl, hbrace⟩
  refine (blockBody_stands rest₁).bind fun body rest₂ h₂ hbody => ?_
  exact Read.ends_ok (hbody.around [brace] [] fun _ _ _ _ hbody => outcome_block hbrace hbody)
termination_by (tokens.length, 0)

private theorem blockBody_stands (tokens : List Token) :
    (blockBody splice tokens).Ends (Stands (blockBody splice) tokens) := by
  have hle := length_skipSemicolons_le tokens
  obtain ⟨semicolons, hsemicolons, hall⟩ := exists_semicolons tokens
  -- The semicolons in front are taken with whatever is taken behind them.
  suffices hinner : (blockBody splice tokens).Ends
      (Stands (blockBody splice) (skipSemicolons tokens)) by
    refine hinner.imp fun value rest hbody => ?_
    rw [hsemicolons]
    exact hbody.around semicolons [] fun _ _ _ _ hbody =>
      (outcome_blockBody_semicolons hall).trans hbody
  rw [blockBody]
  dsimp only
  cases hclose : mark? .rightBrace (skipSemicolons tokens) with
  | some reading =>
    obtain ⟨_, rest, h⟩ := reading
    obtain ⟨brace, hinner, hkind⟩ := mark?_eq_some hclose
    have hbody : Stands (blockBody splice) (skipSemicolons tokens) [] rest := by
      rw [hinner]
      exact .single fun _ _ => outcome_blockBody_nil hkind
    exact Read.ends_ok hbody
  | none =>
    dsimp only
    split
    · exact Read.ends_error rfl
    · rename_i hfinish
      have hbegins : Begins (skipSemicolons tokens) :=
        ⟨not_startsWith_skipSemicolons tokens, not_startsWith_of_mark? hclose,
          fun h => hfinish (isFinish_iff.mpr h)⟩
      refine (statement_stands (skipSemicolons tokens)).bind fun first rest₁ h₁ hfirst => ?_
      refine (blockBody_stands rest₁).bind fun others rest₂ h₂ hothers => ?_
      have hbody : Stands (blockBody splice) (skipSemicolons tokens) (first :: others) rest₂ := by
        obtain ⟨token, taken, hinner, hfirst⟩ := hfirst.exists_token h₁
        obtain ⟨more, rfl, hothers⟩ := hothers
        rw [hinner] at hbegins ⊢
        refine ⟨token :: (taken ++ more), by simp, fun short hshort => ?_⟩
        rw [List.cons_append, List.append_assoc]
        exact outcome_blockBody_cons hbegins (hfirst _ (hshort.prepend more)) (hothers short hshort)
      exact Read.ends_ok hbody
termination_by (tokens.length, 1)
decreasing_by all_goals omega

end

end

end Animatic.Script
