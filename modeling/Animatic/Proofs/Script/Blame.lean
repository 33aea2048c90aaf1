import Animatic.Proofs.Script.Outcome

/-!
# What a reading fails at

A reading fails at a token that does not fit or at a literal that cannot be read, and it has read the
literals in front of that. So two ways to read literals that read the same ones give the same, but
for the problems of the literals themselves.

* `Token.Blamed`: a problem that names a token, at its place.
* `Passed`: tokens that a reading takes.
* `Alike`: two ways to read literals that read the same ones among some tokens.
* `Fails`, `Read.Agrees`: how readings fail with either of them, and agree otherwise.
* `expression_agrees`, `statement_agrees`: the rules of the grammar do so.
* `standalone_fails`, `program_agrees`: what an expression of its own and a program fail at.
-/

namespace Animatic.Script

variable {splice splice' : Position → List Char → Except Diagnostic (List Part)}
  {own own' : Token → Diagnostic → Prop} {α β : Type} {n m : Nat}
  {tokens rest others : List Token} {token : Token} {mark : Mark} {d d' : Diagnostic}

/-! ## Tokens -/

/-- A problem of the grammar with a token. -/
inductive Token.Blamed (token : Token) : Diagnostic → Prop where
  | expected (what : String) :
    Blamed token ⟨.expected what token.description, token.position⟩
  | unexpected : Blamed token ⟨.unexpected token.description, token.position⟩
  | trailing : Blamed token ⟨.trailing token.description, token.position⟩
  | positional : Blamed token ⟨.positionalAfterNamed, token.position⟩

theorem Token.Blamed.position (h : token.Blamed d) : d.position = token.position := by
  cases h <;> rfl

/-- Whether a token can be taken: the end cannot, nor can a literal that cannot be read. -/
structure Token.Taken (splice : Position → List Char → Except Diagnostic (List Part))
    (token : Token) : Prop where
  inner : token.kind ≠ .finish
  parts : ∀ content, token.kind = .literal .expressions content →
    ∃ parts, splice token.position content.toList = .ok parts

/-- Whether a token is neither the end nor a literal with expressions in its braces. -/
def Token.isPlain (token : Token) : Bool :=
  match token.kind with
  | .finish | .literal .expressions _ => false
  | _ => true

theorem Token.Taken.of_plain (h : token.isPlain = true) : token.Taken splice := by
  refine ⟨fun hkind => ?_, fun content hkind => ?_⟩ <;> rw [isPlain, hkind] at h <;> cases h

theorem Token.Taken.of_mark (h : token.kind = .mark mark) : token.Taken splice :=
  .of_plain (by rw [isPlain, h])

/-- The second tokens are behind some of the first ones that can be taken. -/
def Passed (splice : Position → List Char → Except Diagnostic (List Part))
    (tokens rest : List Token) : Prop :=
  ∃ taken, tokens = taken ++ rest ∧ ∀ token ∈ taken, token.Taken splice

namespace Passed

theorem refl (tokens : List Token) : Passed splice tokens tokens := ⟨[], rfl, nofun⟩

theorem one (h : token.Taken splice) (rest : List Token) : Passed splice (token :: rest) rest :=
  ⟨[token], rfl, List.forall_mem_singleton.mpr h⟩

theorem trans (h : Passed splice tokens rest) (h' : Passed splice rest others) :
    Passed splice tokens others := by
  obtain ⟨first, rfl, hfirst⟩ := h
  obtain ⟨second, rfl, hsecond⟩ := h'
  exact ⟨first ++ second, (List.append_assoc _ _ _).symm, List.forall_mem_append.mpr ⟨hfirst, hsecond⟩⟩

theorem subset (h : Passed splice tokens rest) : rest ⊆ tokens := by
  obtain ⟨taken, rfl, -⟩ := h
  exact List.subset_append_right taken rest

end Passed

theorem passed_of_mark? {reading : Reading Unit tokens.length}
    (h : mark? mark tokens = some reading) : Passed splice tokens reading.rest := by
  obtain ⟨_, rest, shorter⟩ := reading
  obtain ⟨token, rfl, hkind⟩ := mark?_eq_some h
  exact .one (.of_mark hkind) rest

/-! ## Readings that agree -/

/-- Two ways to read literals read the same ones among some tokens, and give the same for them. -/
def Alike (splice splice' : Position → List Char → Except Diagnostic (List Part))
    (tokens : List Token) : Prop :=
  ∀ token ∈ tokens, ∀ content, token.kind = .literal .expressions content → ∀ parts,
    splice token.position content.toList = .ok parts ↔
      splice' token.position content.toList = .ok parts

theorem Alike.behind (h : Alike splice splice' tokens) (hrest : Passed splice tokens rest) :
    Alike splice splice' rest := fun token hmem => h token (hrest.subset hmem)

/-- How reading some tokens fails with two ways to read literals: with one problem that it has of its
own with a token, or with what either of them finds wrong with a literal. -/
inductive Fails (splice splice' : Position → List Char → Except Diagnostic (List Part))
    (own : Token → Diagnostic → Prop) (tokens : List Token) : Diagnostic → Diagnostic → Prop where
  | own {rest : List Token} {d : Diagnostic} (hrest : Passed splice tokens rest)
    (h : own (front rest) d) : Fails splice splice' own tokens d d
  | literal {token : Token} {rest : List Token} {content : String} {d d' : Diagnostic}
    (hrest : Passed splice tokens (token :: rest))
    (hkind : token.kind = .literal .expressions content)
    (h : splice token.position content.toList = .error d)
    (h' : splice' token.position content.toList = .error d') :
    Fails splice splice' own tokens d d'

theorem Fails.behind (h : Fails splice splice' own rest d d') (hrest : Passed splice tokens rest) :
    Fails splice splice' own tokens d d' := by
  cases h with
  | own hleft h => exact .own (hrest.trans hleft) h
  | literal hleft hkind h h' => exact .literal (hrest.trans hleft) hkind h h'

theorem Fails.imp (h : Fails splice splice' own tokens d d')
    (himp : ∀ token d, own token d → own' token d) : Fails splice splice' own' tokens d d' := by
  cases h with
  | own hrest h => exact .own hrest (himp _ _ h)
  | literal hrest hkind h h' => exact .literal hrest hkind h h'

/-- Readings with two ways to read literals that give the same behind some tokens, or fail. -/
inductive Read.Agrees (splice splice' : Position → List Char → Except Diagnostic (List Part))
    (own : Token → Diagnostic → Prop) (tokens : List Token) : Read α n → Read α n → Prop where
  | ok {value : α} {rest : List Token} {shorter : rest.length < n}
    (hrest : Passed splice tokens rest) :
    Agrees splice splice' own tokens (.ok ⟨value, rest, shorter⟩) (.ok ⟨value, rest, shorter⟩)
  | error {d d' : Diagnostic} (h : Fails splice splice' own tokens d d') :
    Agrees splice splice' own tokens (.error d) (.error d')

open Read (Agrees)

namespace Read.Agrees

variable {r r' : Read α n}

theorem bind {next next' : Reading α n → Read β m} (h : Agrees splice splice' own tokens r r')
    (hnext : ∀ value rest shorter, Passed splice tokens rest →
      Agrees splice splice' own tokens (next ⟨value, rest, shorter⟩)
        (next' ⟨value, rest, shorter⟩)) :
    Agrees splice splice' own tokens (r >>= next) (r' >>= next') := by
  cases h with
  | ok hrest => exact hnext _ _ _ hrest
  | error h => exact .error h

/-- What agrees behind some tokens agrees where they stand in front. -/
theorem behind (h : Agrees splice splice' own rest r r') (hrest : Passed splice tokens rest) :
    Agrees splice splice' own tokens r r' := by
  cases h with
  | ok hleft => exact .ok (hrest.trans hleft)
  | error h => exact .error (h.behind hrest)

theorem imp (h : Agrees splice splice' own tokens r r')
    (himp : ∀ token d, own token d → own' token d) :
    Agrees splice splice' own' tokens r r' := by
  cases h with
  | ok hrest => exact .ok hrest
  | error h => exact .error (h.imp himp)

end Read.Agrees

/-! ## Marks and names -/

theorem takeMark_agrees (mark : Mark) (what : String) (tokens : List Token) :
    Agrees splice splice' Token.Blamed tokens (takeMark mark what tokens)
      (takeMark mark what tokens) := by
  rw [takeMark]
  split
  · rename_i reading hread
    exact .ok (passed_of_mark? hread)
  · exact .error (.own (.refl tokens) (.expected what))

theorem takeName_agrees (tokens : List Token) :
    Agrees splice splice' Token.Blamed tokens (takeName tokens) (takeName tokens) := by
  unfold takeName
  split
  · exact .ok (.one (.of_plain rfl) _)
  · exact .error (.own (.refl _) (.expected _))

theorem takePropertyName_agrees (tokens : List Token) :
    Agrees splice splice' Token.Blamed tokens (takePropertyName tokens)
      (takePropertyName tokens) := by
  unfold takePropertyName
  split
  · exact .ok (.one (.of_plain rfl) _)
  · exact .ok (.one (.of_plain rfl) _)
  · exact .error (.own (.refl _) (.expected _))

theorem parameterList_agrees (tokens : List Token) :
    Agrees splice splice' Token.Blamed tokens (parameterList tokens) (parameterList tokens) := by
  rw [parameterList]
  cases hclose : mark? .rightParen tokens with
  | some reading => exact .ok (passed_of_mark? hclose)
  | none =>
    refine (takeName_agrees tokens).bind fun name rest₁ h₁ hrest₁ => ?_
    dsimp only
    cases hcomma : mark? .comma rest₁ with
    | some reading =>
      obtain ⟨_, rest₂, h₂⟩ := reading
      have hrest₂ : Passed splice tokens rest₂ := hrest₁.trans (passed_of_mark? hcomma)
      refine ((parameterList_agrees rest₂).behind hrest₂).bind fun names rest₃ h₃ hrest₃ => ?_
      exact .ok hrest₃
    | none =>
      refine ((takeMark_agrees .rightParen _ rest₁).behind hrest₁).bind fun _ rest₂ h₂ hrest₂ => ?_
      exact .ok hrest₂
termination_by tokens.length

/-! ## Expressions -/

private theorem taken_of_binaryOp? {op : BinaryOp} (h : token.binaryOp? = some op) :
    token.Taken splice := by
  obtain ⟨kind, text, position⟩ := token
  cases kind with
  | mark mark => exact .of_mark rfl
  | _ => cases h

private theorem taken_of_unaryOp? {op : UnaryOp} (h : token.unaryOp? = some op) :
    token.Taken splice := by
  obtain ⟨kind, text, position⟩ := token
  cases kind with
  | mark mark => exact .of_mark rfl
  | _ => cases h

mutual

theorem expression_agrees (constructors : Bool) (tokens : List Token)
    (h : Alike splice splice' tokens) :
    Agrees splice splice' Token.Blamed tokens (expression splice constructors tokens)
      (expression splice' constructors tokens) := by
  rw [expression, expression]
  exact binary_agrees constructors 1 tokens h
termination_by (tokens.length, 4)

private theorem binary_agrees (constructors : Bool) (least : Nat) (tokens : List Token)
    (h : Alike splice splice' tokens) :
    Agrees splice splice' Token.Blamed tokens (binary splice constructors least tokens)
      (binary splice' constructors least tokens) := by
  rw [binary, binary]
  refine (unary_agrees constructors tokens h).bind fun lhs rest₁ h₁ hrest₁ => ?_
  refine ((operators_agrees constructors least lhs rest₁ (h.behind hrest₁)).behind hrest₁).bind
    fun value rest₂ h₂ hrest₂ => ?_
  exact .ok hrest₂
termination_by (tokens.length, 3)

private theorem operators_agrees (constructors : Bool) (least : Nat) (lhs : Expr) :
    (tokens : List Token) → Alike splice splice' tokens →
      Agrees splice splice' Token.Blamed tokens (operators splice constructors least lhs tokens)
        (operators splice' constructors least lhs tokens)
  | [], _ => by
    rw [operators, operators]
    exact .ok (.refl [])
  | token :: rest, h => by
    rw [operators, operators]
    cases hop : token.binaryOp? with
    | none => exact .ok (.refl _)
    | some op =>
      have hrest : Passed splice (token :: rest) rest := .one (taken_of_binaryOp? hop) rest
      dsimp only
      split
      · exact .ok (.refl _)
      · refine Agrees.behind ?_ hrest
        refine (binary_agrees constructors (op.precedence + 1) rest (h.behind hrest)).bind
          fun rhs rest₁ h₁ hrest₁ => ?_
        have hbehind := h.behind (hrest.trans hrest₁)
        refine ((operators_agrees constructors least (.binary token.position op lhs rhs) rest₁
          hbehind).behind hrest₁).bind fun value rest₂ h₂ hrest₂ => ?_
        exact .ok hrest₂
termination_by tokens => (tokens.length, 0)

private theorem unary_agrees (constructors : Bool) : (tokens : List Token) →
    Alike splice splice' tokens →
      Agrees splice splice' Token.Blamed tokens (unary splice constructors tokens)
        (unary splice' constructors tokens)
  | [], h => by
    rw [unary, unary]
    exact postfixed_agrees constructors [] h
  | token :: rest, h => by
    rw [unary, unary]
    cases hop : token.unaryOp? with
    | none => exact postfixed_agrees constructors (token :: rest) h
    | some op =>
      have hrest : Passed splice (token :: rest) rest := .one (taken_of_unaryOp? hop) rest
      refine ((unary_agrees constructors rest (h.behind hrest)).behind hrest).bind
        fun operand rest₁ h₁ hrest₁ => ?_
      exact .ok hrest₁
termination_by tokens => (tokens.length, 2)

private theorem postfixed_agrees (constructors : Bool) (tokens : List Token)
    (h : Alike splice splice' tokens) :
    Agrees splice splice' Token.Blamed tokens (postfixed splice constructors tokens)
      (postfixed splice' constructors tokens) := by
  rw [postfixed, postfixed]
  refine (primary_agrees constructors tokens h).bind fun operand rest₁ h₁ hrest₁ => ?_
  refine ((suffixes_agrees constructors operand rest₁ (h.behind hrest₁)).behind hrest₁).bind
    fun value rest₂ h₂ hrest₂ => ?_
  exact .ok hrest₂
termination_by (tokens.length, 1)

private theorem suffixes_agrees (constructors : Bool) (value : Expr) : (tokens : List Token) →
    Alike splice splice' tokens →
      Agrees splice splice' Token.Blamed tokens (suffixes splice constructors value tokens)
        (suffixes splice' constructors value tokens)
  | [], _ => by
    rw [suffixes, suffixes]
    exact .ok (.refl [])
  | token :: rest, h => by
    have hmark {mark : Mark} (h : token.isMark mark = true) :
        Passed splice (token :: rest) rest := .one (.of_mark (isMark_iff.mp h)) rest
    -- a longer expression is read on from where the part of it that stands behind ends
    have hlonger (hrest : Passed splice (token :: rest) rest) (longer : Expr) {left : List Token}
        (hlt : left.length < rest.length) (hleft : Passed splice rest left) :
        Agrees splice splice' Token.Blamed rest (suffixes splice constructors longer left)
          (suffixes splice' constructors longer left) :=
      (suffixes_agrees constructors longer left (h.behind (hrest.trans hleft))).behind hleft
    rw [suffixes, suffixes]
    split
    · rename_i hdot
      refine Agrees.behind ?_ (hmark hdot)
      refine (takeName_agrees rest).bind fun name rest₁ h₁ hrest₁ => ?_
      refine (hlonger (hmark hdot) (.member value.position value name) h₁ hrest₁).bind
        fun longer rest₂ h₂ hrest₂ => ?_
      exact .ok hrest₂
    split
    · rename_i hparen
      refine Agrees.behind ?_ (hmark hparen)
      refine (argumentList_agrees false rest (h.behind (hmark hparen))).bind
        fun arguments rest₁ h₁ hrest₁ => ?_
      refine (hlonger (hmark hparen) (.call value.position value arguments) h₁ hrest₁).bind
        fun longer rest₂ h₂ hrest₂ => ?_
      exact .ok hrest₂
    split
    · rename_i hbrace
      have hrest := hmark (Bool.and_eq_true_iff.mp hbrace).1
      cases value.constructorHead? with
      | none => exact .ok (.refl _)
      | some head =>
        obtain ⟨typeName, arguments⟩ := head
        dsimp only
        refine Agrees.behind ?_ hrest
        refine (propertyList_agrees rest (h.behind hrest)).bind
          fun properties rest₁ h₁ hrest₁ => ?_
        refine (hlonger hrest (.construct value.position typeName arguments properties) h₁
          hrest₁).bind fun longer rest₂ h₂ hrest₂ => ?_
        exact .ok hrest₂
    · exact .ok (.refl _)
termination_by tokens => (tokens.length, 0)

private theorem primary_agrees (constructors : Bool) : (tokens : List Token) →
    Alike splice splice' tokens →
      Agrees splice splice' Token.Blamed tokens (primary splice constructors tokens)
        (primary splice' constructors tokens)
  | [], _ => by
    rw [primary, primary]
    exact .error (.own (.refl []) .unexpected)
  | ⟨kind, text, position⟩ :: rest, h => by
    rw [primary, primary]
    cases kind with
    | number value => exact .ok (.one (.of_plain rfl) rest)
    | literal style content =>
      cases style with
      | verbatim => exact .ok (.one (.of_plain rfl) rest)
      | names => exact .ok (.one (.of_plain rfl) rest)
      | expressions =>
        have hsame := h _ List.mem_cons_self content rfl
        dsimp only at hsame ⊢
        cases hparts : splice position content.toList with
        | ok parts =>
          rw [(hsame parts).mp hparts]
          refine .ok (.one ⟨Token.Kind.noConfusion, fun other hother => ?_⟩ rest)
          cases hother
          exact ⟨parts, hparts⟩
        | error d =>
          cases hparts' : splice' position content.toList with
          | ok parts =>
            rw [(hsame parts).mpr hparts'] at hparts
            cases hparts
          | error d' => exact .error (.literal (.refl _) rfl hparts hparts')
    | name name =>
      have hrest : Passed splice (⟨.name name, text, position⟩ :: rest) rest :=
        .one (.of_plain rfl) rest
      dsimp only
      split
      · exact .ok hrest
      · by_cases hadd : (name == "Add" && constructors) = true
        · rw [if_pos hadd]
          cases hbrace : mark? .leftBrace rest with
          | none => exact .ok hrest
          | some reading =>
            obtain ⟨_, rest₁, h₁⟩ := reading
            have hrest₁ := hrest.trans (passed_of_mark? hbrace)
            refine Agrees.behind ?_ hrest₁
            refine (expressionList_agrees .rightBrace "'\x7d'" rest₁ (h.behind hrest₁)).bind
              fun items rest₂ h₂ hrest₂ => ?_
            exact .ok hrest₂
        · rw [if_neg hadd]
          exact .ok hrest
    | mark mark =>
      have hrest : Passed splice (⟨.mark mark, text, position⟩ :: rest) rest :=
        .one (.of_mark rfl) rest
      have hbehind := h.behind hrest
      cases mark with
      | leftBracket =>
        refine Agrees.behind ?_ hrest
        refine (expressionList_agrees .rightBracket "']'" rest hbehind).bind
          fun items rest₁ h₁ hrest₁ => ?_
        exact .ok hrest₁
      | leftParen =>
        refine Agrees.behind ?_ hrest
        refine (expression_agrees true rest hbehind).bind fun value rest₁ h₁ hrest₁ => ?_
        refine ((takeMark_agrees .rightParen "')'" rest₁).behind hrest₁).bind
          fun _ rest₂ h₂ hrest₂ => ?_
        exact .ok hrest₂
      | _ => exact .error (.own (.refl _) .unexpected)
    | _ => exact .error (.own (.refl _) .unexpected)
termination_by tokens => (tokens.length, 0)

private theorem expressionList_agrees (close : Mark) (what : String) (tokens : List Token)
    (h : Alike splice splice' tokens) :
    Agrees splice splice' Token.Blamed tokens (expressionList splice close what tokens)
      (expressionList splice' close what tokens) := by
  rw [expressionList, expressionList]
  cases hclose : mark? close tokens with
  | some reading => exact .ok (passed_of_mark? hclose)
  | none =>
    refine (expression_agrees true tokens h).bind fun item rest₁ h₁ hrest₁ => ?_
    dsimp only
    cases hcomma : mark? .comma rest₁ with
    | some reading =>
      obtain ⟨_, rest₂, h₂⟩ := reading
      have hrest₂ := hrest₁.trans (passed_of_mark? hcomma)
      refine ((expressionList_agrees close what rest₂ (h.behind hrest₂)).behind hrest₂).bind
        fun items rest₃ h₃ hrest₃ => ?_
      exact .ok hrest₃
    | none =>
      refine ((takeMark_agrees close what rest₁).behind hrest₁).bind fun _ rest₂ h₂ hrest₂ => ?_
      exact .ok hrest₂
termination_by (tokens.length, 5)

private theorem argumentList_agrees (seenNamed : Bool) (tokens : List Token)
    (h : Alike splice splice' tokens) :
    Agrees splice splice' Token.Blamed tokens (argumentList splice seenNamed tokens)
      (argumentList splice' seenNamed tokens) := by
  rw [argumentList, argumentList]
  cases hclose : mark? .rightParen tokens with
  | some reading => exact .ok (passed_of_mark? hclose)
  | none =>
    refine (argument_agrees seenNamed tokens h).bind fun first rest₁ h₁ hrest₁ => ?_
    dsimp only
    cases hcomma : mark? .comma rest₁ with
    | some reading =>
      obtain ⟨_, rest₂, h₂⟩ := reading
      have hrest₂ := hrest₁.trans (passed_of_mark? hcomma)
      refine ((argumentList_agrees first.isNamed rest₂ (h.behind hrest₂)).behind hrest₂).bind
        fun others rest₃ h₃ hrest₃ => ?_
      exact .ok hrest₃
    | none =>
      refine ((takeMark_agrees .rightParen _ rest₁).behind hrest₁).bind
        fun _ rest₂ h₂ hrest₂ => ?_
      exact .ok hrest₂
termination_by (tokens.length, 6)

private theorem argument_agrees (seenNamed : Bool) (tokens : List Token)
    (h : Alike splice splice' tokens) :
    Agrees splice splice' Token.Blamed tokens (argument splice seenNamed tokens)
      (argument splice' seenNamed tokens) := by
  unfold argument
  split
  · rename_i name text position text' position' rest
    have hrest : Passed splice
        (⟨.name name, text, position⟩ :: ⟨.mark .colon, text', position'⟩ :: rest) rest :=
      (Passed.one (.of_plain rfl) _).trans (.one (.of_mark rfl) rest)
    refine ((expression_agrees true rest (h.behind hrest)).behind hrest).bind
      fun value rest₁ h₁ hrest₁ => ?_
    exact .ok hrest₁
  · split
    · exact .error (.own (.refl _) .positional)
    · refine (expression_agrees true tokens h).bind fun value rest₁ h₁ hrest₁ => ?_
      exact .ok hrest₁
termination_by (tokens.length, 5)

private theorem propertyList_agrees (tokens : List Token) (h : Alike splice splice' tokens) :
    Agrees splice splice' Token.Blamed tokens (propertyList splice tokens)
      (propertyList splice' tokens) := by
  rw [propertyList, propertyList]
  cases hclose : mark? .rightBrace tokens with
  | some reading => exact .ok (passed_of_mark? hclose)
  | none =>
    refine (takePropertyName_agrees tokens).bind fun name rest₁ h₁ hrest₁ => ?_
    refine ((takeMark_agrees .colon _ rest₁).behind hrest₁).bind fun _ rest₂ h₂ hrest₂ => ?_
    refine ((expression_agrees true rest₂ (h.behind hrest₂)).behind hrest₂).bind
      fun value rest₃ h₃ hrest₃ => ?_
    dsimp only
    cases hcomma : mark? .comma rest₃ with
    | some reading =>
      obtain ⟨_, rest₄, h₄⟩ := reading
      have hrest₄ := hrest₃.trans (passed_of_mark? hcomma)
      refine ((propertyList_agrees rest₄ (h.behind hrest₄)).behind hrest₄).bind
        fun others rest₅ h₅ hrest₅ => ?_
      exact .ok hrest₅
    | none =>
      refine ((takeMark_agrees .rightBrace _ rest₃).behind hrest₃).bind
        fun _ rest₄ h₄ hrest₄ => ?_
      exact .ok hrest₄
termination_by (tokens.length, 0)

end

/-- An expression of its own fails at a token that does not fit or at a literal. -/
theorem standalone_fails (h : standalone splice tokens = .error d) :
    Fails splice splice Token.Blamed tokens d d := by
  have halike : Alike splice splice tokens := fun _ _ _ _ _ => Iff.rfl
  have hagrees := expression_agrees true tokens halike
  rw [standalone] at h
  generalize expression splice true tokens = r at hagrees h
  cases hagrees with
  | error hfails =>
    obtain rfl := Except.error.inj h
    exact hfails
  | ok hrest =>
    dsimp only [bind, Except.bind] at h
    split at h
    · cases h
    · obtain rfl := Except.error.inj h
      exact .own hrest .trailing

/-- What an expression of its own reads as depends on its literals through their parts. -/
theorem standalone_congr (h : ∀ token ∈ tokens, ∀ content,
      token.kind = .literal .expressions content →
        splice token.position content.toList = splice' token.position content.toList) :
    standalone splice tokens = standalone splice' tokens := by
  have halike : Alike splice splice' tokens :=
    fun token hmem content hkind _ => by rw [h token hmem content hkind]
  have hagrees := expression_agrees true tokens halike
  rw [standalone, standalone]
  generalize expression splice true tokens = r at hagrees
  generalize expression splice' true tokens = r' at hagrees
  cases hagrees with
  | ok => rfl
  | error hfails =>
    cases hfails with
    | own => rfl
    | literal hrest hkind hd hd' =>
      rw [h _ (hrest.subset List.mem_cons_self) _ hkind, hd'] at hd
      rw [Except.error.inj hd]

/-! ## Statements -/

/-- Any problem. -/
private abbrev anything : Token → Diagnostic → Prop := fun _ _ => True

private theorem Read.Agrees.weaken {r r' : Read α n}
    (h : Agrees splice splice' Token.Blamed tokens r r') :
    Agrees splice splice' anything tokens r r' := h.imp fun _ _ _ => trivial

private theorem passed_skipSemicolons (tokens : List Token) :
    Passed splice tokens (skipSemicolons tokens) := by
  obtain ⟨semicolons, hsemicolons, hall⟩ := exists_semicolons tokens
  exact ⟨semicolons, hsemicolons, fun token hmem => .of_mark (hall token hmem)⟩

mutual

theorem statement_agrees (tokens : List Token) (h : Alike splice splice' tokens) :
    Agrees splice splice' anything tokens (statement splice tokens)
      (statement splice' tokens) := by
  unfold statement
  split
  · rename_i text position name text' position' rest
    have hrest : Passed splice
        (⟨.name "func", text, position⟩ :: ⟨.name name, text', position'⟩ :: rest) rest :=
      (Passed.one (.of_plain rfl) _).trans (.one (.of_plain rfl) rest)
    refine ((takeMark_agrees .leftParen _ rest).weaken.behind hrest).bind fun _ rest₁ h₁ hrest₁ => ?_
    refine ((parameterList_agrees rest₁).weaken.behind hrest₁).bind
      fun parameters rest₂ h₂ hrest₂ => ?_
    refine ((block_agrees rest₂ (h.behind hrest₂)).behind hrest₂).bind
      fun body rest₃ h₃ hrest₃ => ?_
    exact .ok hrest₃
  · rename_i text position rest
    have hrest : Passed splice (⟨.name "repeat", text, position⟩ :: rest) rest :=
      .one (.of_plain rfl) rest
    refine ((expression_agrees false rest (h.behind hrest)).weaken.behind hrest).bind
      fun count rest₁ h₁ hrest₁ => ?_
    refine ((block_agrees rest₁ (h.behind hrest₁)).behind hrest₁).bind
      fun body rest₂ h₂ hrest₂ => ?_
    exact .ok hrest₂
  · rename_i text position rest
    have hrest : Passed splice (⟨.name "wait", text, position⟩ :: rest) rest :=
      .one (.of_plain rfl) rest
    refine ((expression_agrees true rest (h.behind hrest)).weaken.behind hrest).bind
      fun seconds rest₁ h₁ hrest₁ => ?_
    exact .ok hrest₁
  · rename_i text position rest
    have hrest : Passed splice (⟨.name "return", text, position⟩ :: rest) rest :=
      .one (.of_plain rfl) rest
    split
    · refine ((expression_agrees true rest (h.behind hrest)).weaken.behind hrest).bind
        fun value rest₁ h₁ hrest₁ => ?_
      exact .ok hrest₁
    · exact .ok hrest
  · refine (expression_agrees true tokens h).weaken.bind fun target rest₁ h₁ hrest₁ => ?_
    dsimp only
    cases hassign : mark? .assign rest₁ with
    | none => exact .ok hrest₁
    | some reading =>
      obtain ⟨_, rest₂, h₂⟩ := reading
      have hrest₂ := hrest₁.trans (passed_of_mark? hassign)
      dsimp only
      split
      · refine ((expression_agrees true rest₂ (h.behind hrest₂)).weaken.behind hrest₂).bind
          fun value rest₃ h₃ hrest₃ => ?_
        exact .ok hrest₃
      · exact .error (.own (.refl _) trivial)
termination_by (tokens.length, 0)
decreasing_by all_goals (subst_vars; simp only [List.length_cons]; omega)

private theorem block_agrees (tokens : List Token) (h : Alike splice splice' tokens) :
    Agrees splice splice' anything tokens (block splice tokens) (block splice' tokens) := by
  rw [block, block]
  refine (takeMark_agrees .leftBrace _ tokens).weaken.bind fun _ rest₁ h₁ hrest₁ => ?_
  refine ((blockBody_agrees rest₁ (h.behind hrest₁)).behind hrest₁).bind
    fun body rest₂ h₂ hrest₂ => ?_
  exact .ok hrest₂
termination_by (tokens.length, 0)

private theorem blockBody_agrees (tokens : List Token) (h : Alike splice splice' tokens) :
    Agrees splice splice' anything tokens (blockBody splice tokens) (blockBody splice' tokens) := by
  have hle := length_skipSemicolons_le tokens
  have hinner : Passed splice tokens (skipSemicolons tokens) := passed_skipSemicolons tokens
  rw [blockBody, blockBody]
  dsimp only
  cases hclose : mark? .rightBrace (skipSemicolons tokens) with
  | some reading => exact .ok (hinner.trans (passed_of_mark? hclose))
  | none =>
    dsimp only
    split
    · exact .error (.own hinner trivial)
    · refine ((statement_agrees (skipSemicolons tokens) (h.behind hinner)).behind hinner).bind
        fun first rest₁ h₁ hrest₁ => ?_
      refine ((blockBody_agrees rest₁ (h.behind hrest₁)).behind hrest₁).bind
        fun others rest₂ h₂ hrest₂ => ?_
      exact .ok hrest₂
termination_by (tokens.length, 1)
decreasing_by all_goals omega

end

/-- A program reads alike with both ways to read literals, or it has a problem with either. -/
theorem program_agrees (tokens : List Token) (h : Alike splice splice' tokens) :
    program splice tokens = program splice' tokens ∨
      ∃ stmts d d', program splice tokens = (stmts, some d) ∧
        program splice' tokens = (stmts, some d') ∧
          Fails splice splice' anything tokens d d' := by
  have hle := length_skipSemicolons_le tokens
  have hinner : Passed splice tokens (skipSemicolons tokens) := passed_skipSemicolons tokens
  have hagrees := statement_agrees (skipSemicolons tokens) (h.behind hinner)
  rw [program_eq, program_eq, programOutcome, programOutcome]
  by_cases hfinish : (front (skipSemicolons tokens)).isFinish = true
  · rw [if_pos hfinish, if_pos hfinish]
    exact .inl rfl
  rw [if_neg hfinish, if_neg hfinish]
  generalize statement splice (skipSemicolons tokens) = r at hagrees
  generalize statement splice' (skipSemicolons tokens) = r' at hagrees
  cases hagrees with
  | error hfails => exact .inr ⟨[], _, _, rfl, rfl, hfails.behind hinner⟩
  | @ok first rest shorter hrest =>
    have hpassed := hinner.trans hrest
    rcases program_agrees rest (h.behind hpassed) with heq | ⟨stmts, d, d', hread, hread', hfails⟩
    · refine .inl ?_
      change (first :: (program splice rest).1, (program splice rest).2) =
        (first :: (program splice' rest).1, (program splice' rest).2)
      rw [heq]
    · refine .inr ⟨first :: stmts, d, d', ?_, ?_, hfails.behind hpassed⟩
      · change (first :: (program splice rest).1, (program splice rest).2) = _
        rw [hread]
      · change (first :: (program splice' rest).1, (program splice' rest).2) = _
        rw [hread']
termination_by tokens.length
decreasing_by omega

end Animatic.Script
