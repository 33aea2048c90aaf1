import Mathlib.Data.List.Basic
import Mathlib.Data.List.TakeWhile
import Animatic.Script.Basic

/-!
# What the grammar reads

A reading carries a proof that tokens are used up. Its `outcome` leaves that out, and the grammar's
rules are equations on outcomes: what each of them reads follows from what its parts read.

* `Read.outcome`: the value that is read and the tokens behind it, or the problem.
* One lemma for each rule of the grammar, for the case that its parts are read.
-/

namespace Animatic.Script

variable {α : Type} {n : Nat}

/-- What a reading gives: a value and the tokens behind it, or the problem that ended it. -/
def Read.outcome (r : Read α n) : Except Diagnostic (α × List Token) :=
  r.map fun reading => (reading.value, reading.rest)

theorem Read.eq_ok {r : Read α n} {value : α} {rest : List Token}
    (h : r.outcome = .ok (value, rest)) : ∃ shorter, r = .ok ⟨value, rest, shorter⟩ := by
  cases r with
  | error e => cases h
  | ok reading =>
    obtain ⟨rfl, rfl⟩ := Prod.mk.inj (Except.ok.inj h)
    exact ⟨reading.shorter, rfl⟩

theorem Read.eq_error {r : Read α n} {d : Diagnostic} (h : r.outcome = .error d) :
    r = .error d := by
  cases r with
  | error other =>
    obtain rfl := Except.error.inj h
    rfl
  | ok reading => cases h

/-- A reading that passes on what another one gives. -/
theorem Read.outcome_bind_eq {m : Nat} {r : Read α n} {f : Reading α n → Read α m}
    (h : ∀ reading, (f reading).outcome = .ok (reading.value, reading.rest)) :
    Read.outcome (r >>= f) = r.outcome := by
  cases r with
  | error e => rfl
  | ok reading => exact h reading

/-- A list fails at the first of its items that does. -/
theorem mapM_eq_error {β γ : Type} {f : β → Except Diagnostic γ} {items : List β} {d : Diagnostic}
    (h : items.mapM f = .error d) : ∃ before item after, items = before ++ item :: after ∧
      (∀ earlier ∈ before, ∃ value, f earlier = .ok value) ∧ f item = .error d := by
  induction items with
  | nil => cases h
  | cons item rest ih =>
    rw [List.mapM_cons] at h
    cases hitem : f item with
    | error other =>
      rw [hitem] at h
      obtain rfl := Except.error.inj h
      exact ⟨[], item, rest, rfl, nofun, hitem⟩
    | ok value =>
      cases hrest : rest.mapM f with
      | error other =>
        rw [hitem, hrest] at h
        obtain rfl := Except.error.inj h
        obtain ⟨before, found, after, rfl, hbefore, hfound⟩ := ih hrest
        exact ⟨item :: before, found, after, rfl,
          List.forall_mem_cons.mpr ⟨⟨value, hitem⟩, hbefore⟩, hfound⟩
      | ok values =>
        rw [hitem, hrest] at h
        cases h

/-! ## Marks and names -/

/-- Whether a token with a mark is in front. -/
def startsWith (mark : Mark) (tokens : List Token) : Prop := (front tokens).kind = .mark mark

theorem isMark_iff {mark : Mark} {token : Token} :
    token.isMark mark = true ↔ token.kind = .mark mark := by
  unfold Token.isMark
  cases token.kind <;> simp

theorem mark?_cons {mark : Mark} {token : Token} (h : token.kind = .mark mark)
    (rest : List Token) : ∃ shorter, mark? mark (token :: rest) = some ⟨(), rest, shorter⟩ := by
  rw [mark?, if_pos (isMark_iff.mpr h)]
  exact ⟨_, rfl⟩

theorem mark?_eq_none {mark : Mark} {tokens : List Token} (h : ¬ startsWith mark tokens) :
    mark? mark tokens = none := by
  cases tokens with
  | nil => rfl
  | cons token rest =>
    rw [mark?, if_neg]
    exact fun hmark => h (isMark_iff.mp hmark)

theorem mark?_eq_some {mark : Mark} {tokens rest : List Token}
    {shorter : rest.length < tokens.length} (h : mark? mark tokens = some ⟨(), rest, shorter⟩) :
    ∃ token, tokens = token :: rest ∧ token.kind = .mark mark := by
  cases tokens with
  | nil => cases h
  | cons token others =>
    rw [mark?] at h
    split at h
    · rename_i hmark
      obtain rfl : others = rest := congrArg Reading.rest (Option.some.inj h)
      exact ⟨token, rfl, isMark_iff.mp hmark⟩
    · cases h

theorem not_startsWith_of_mark? {mark : Mark} {tokens : List Token} (h : mark? mark tokens = none) :
    ¬ startsWith mark tokens := by
  intro hmark
  cases tokens with
  | nil => exact Token.Kind.noConfusion hmark
  | cons token rest =>
    have htoken : token.isMark mark = true := isMark_iff.mpr hmark
    rw [mark?, if_pos htoken] at h
    cases h

theorem not_startsWith_of_name {mark : Mark} {name : String} {token : Token} {rest : List Token}
    (h : token.kind = .name name) : ¬ startsWith mark (token :: rest) := fun hmark =>
  Token.Kind.noConfusion (h.symm.trans hmark)

theorem takeMark_cons {mark : Mark} {token : Token} (h : token.kind = .mark mark) (what : String)
    (rest : List Token) :
    ∃ shorter, takeMark mark what (token :: rest) = .ok ⟨(), rest, shorter⟩ := by
  obtain ⟨_, hmark⟩ := mark?_cons h rest
  exact ⟨_, by rw [takeMark, hmark]⟩

theorem takeName_cons {name : String} {token : Token} (h : token.kind = .name name)
    (rest : List Token) : ∃ shorter, takeName (token :: rest) = .ok ⟨name, rest, shorter⟩ := by
  obtain ⟨kind, text, position⟩ := token
  obtain rfl : kind = .name name := h
  exact ⟨_, rfl⟩

theorem takePropertyName_cons {name : String} {token : Token}
    (h : token.kind = .name name ∨ token.kind = .literal .verbatim name) (rest : List Token) :
    ∃ shorter, takePropertyName (token :: rest) = .ok ⟨name, rest, shorter⟩ := by
  obtain ⟨kind, text, position⟩ := token
  rcases h with h | h
  · obtain rfl : kind = .name name := h
    exact ⟨_, rfl⟩
  · obtain rfl : kind = .literal .verbatim name := h
    exact ⟨_, rfl⟩

/-! ## Operators and operands -/

variable {splice : Position → List Char → Except Diagnostic (List Part)} {constructors : Bool}
  {least : Nat} {token : Token} {tokens rest rest₁ : List Token} {value operand lhs rhs : Expr}

theorem outcome_expression :
    (expression splice constructors tokens).outcome =
      (binary splice constructors 1 tokens).outcome := by
  rw [expression]

theorem outcome_binary (h : (unary splice constructors tokens).outcome = .ok (lhs, rest)) :
    (binary splice constructors least tokens).outcome =
      (operators splice constructors least lhs rest).outcome := by
  obtain ⟨_, hlhs⟩ := Read.eq_ok h
  rw [binary, hlhs]
  change Read.outcome (operators splice constructors least lhs rest >>= _) = _
  exact Read.outcome_bind_eq fun _ => rfl

/-- No operator that binds at least as tightly as `least` is in front. -/
theorem outcome_operators_stop
    (h : ∀ op, (front tokens).binaryOp? = some op → op.precedence < least) :
    (operators splice constructors least lhs tokens).outcome = .ok (lhs, tokens) := by
  cases tokens with
  | nil => rw [operators]; rfl
  | cons token rest =>
    cases hop : token.binaryOp? with
    | none =>
      rw [operators, hop]
      rfl
    | some op =>
      rw [operators, hop]
      dsimp only
      rw [if_pos (h op hop)]
      rfl

theorem outcome_operators_step {op : BinaryOp} (hop : token.binaryOp? = some op)
    (hleast : least ≤ op.precedence)
    (h : (binary splice constructors (op.precedence + 1) rest).outcome = .ok (rhs, rest₁)) :
    (operators splice constructors least lhs (token :: rest)).outcome =
      (operators splice constructors least (.binary token.position op lhs rhs) rest₁).outcome := by
  obtain ⟨_, hrhs⟩ := Read.eq_ok h
  rw [operators, hop]
  dsimp only
  rw [if_neg (Nat.not_lt.mpr hleast), hrhs]
  change Read.outcome (operators splice constructors least _ rest₁ >>= _) = _
  exact Read.outcome_bind_eq fun _ => rfl

theorem outcome_unary_none (h : (front tokens).unaryOp? = none) :
    (unary splice constructors tokens).outcome =
      (postfixed splice constructors tokens).outcome := by
  cases tokens with
  | nil => rw [unary]
  | cons token rest =>
    have htoken : token.unaryOp? = none := h
    rw [unary, htoken]

theorem outcome_unary_some {op : UnaryOp} (hop : token.unaryOp? = some op)
    (h : (unary splice constructors rest).outcome = .ok (operand, rest₁)) :
    (unary splice constructors (token :: rest)).outcome =
      .ok (.unary token.position op operand, rest₁) := by
  obtain ⟨_, hoperand⟩ := Read.eq_ok h
  rw [unary, hop]
  dsimp only
  rw [hoperand]
  rfl

theorem outcome_postfixed (h : (primary splice constructors tokens).outcome = .ok (value, rest)) :
    (postfixed splice constructors tokens).outcome =
      (suffixes splice constructors value rest).outcome := by
  obtain ⟨_, hvalue⟩ := Read.eq_ok h
  rw [postfixed, hvalue]
  change Read.outcome (suffixes splice constructors value rest >>= _) = _
  exact Read.outcome_bind_eq fun _ => rfl

/-! ## Members, calls and constructor braces -/

/-- Whether what stands in front goes on with the operand behind which it stands. -/
def Extends (constructors : Bool) (tokens : List Token) : Prop :=
  startsWith .dot tokens ∨ startsWith .leftParen tokens ∨
    constructors = true ∧ startsWith .leftBrace tokens

theorem outcome_suffixes_stop (h : ¬ Extends constructors tokens) :
    (suffixes splice constructors value tokens).outcome = .ok (value, tokens) := by
  cases tokens with
  | nil => rw [suffixes]; rfl
  | cons token rest =>
    have hdot : ¬ token.isMark .dot = true := fun hmark => h (.inl (isMark_iff.mp hmark))
    have hparen : ¬ token.isMark .leftParen = true := fun hmark =>
      h (.inr (.inl (isMark_iff.mp hmark)))
    have hbrace : ¬ (token.isMark .leftBrace && constructors) = true := fun hmark => by
      rw [Bool.and_eq_true] at hmark
      exact h (.inr (.inr ⟨hmark.2, isMark_iff.mp hmark.1⟩))
    rw [suffixes, if_neg hdot, if_neg hparen, if_neg hbrace]
    rfl

/-- A brace does not go on with an operand that is not the head of a constructor. -/
theorem outcome_suffixes_headless (hhead : value.constructorHead? = none)
    (hdot : ¬ startsWith .dot tokens) (hparen : ¬ startsWith .leftParen tokens) :
    (suffixes splice constructors value tokens).outcome = .ok (value, tokens) := by
  cases tokens with
  | nil => rw [suffixes]; rfl
  | cons token rest =>
    have hnoDot : ¬ token.isMark .dot = true := fun hmark => hdot (isMark_iff.mp hmark)
    have hnoParen : ¬ token.isMark .leftParen = true := fun hmark => hparen (isMark_iff.mp hmark)
    rw [suffixes, if_neg hnoDot, if_neg hnoParen, hhead]
    dsimp only
    rw [ite_self]
    rfl

theorem outcome_suffixes_member {dot name : Token} {word : String} (hdot : dot.kind = .mark .dot)
    (hname : name.kind = .name word) :
    (suffixes splice constructors value (dot :: name :: rest)).outcome =
      (suffixes splice constructors (.member value.position value word) rest).outcome := by
  obtain ⟨_, htake⟩ := takeName_cons hname rest
  rw [suffixes, if_pos (isMark_iff.mpr hdot), htake]
  change Read.outcome (suffixes splice constructors _ rest >>= _) = _
  exact Read.outcome_bind_eq fun _ => rfl

private theorem isMark_eq_false {mark other : Mark} (h : token.kind = .mark mark)
    (hne : mark ≠ other) : ¬ token.isMark other = true := fun hmark =>
  hne (Token.Kind.mark.inj (h.symm.trans (isMark_iff.mp hmark)))

theorem outcome_suffixes_call {arguments : List Argument} (hparen : token.kind = .mark .leftParen)
    (h : (argumentList splice false rest).outcome = .ok (arguments, rest₁)) :
    (suffixes splice constructors value (token :: rest)).outcome =
      (suffixes splice constructors (.call value.position value arguments) rest₁).outcome := by
  obtain ⟨_, harguments⟩ := Read.eq_ok h
  rw [suffixes, if_neg (isMark_eq_false hparen (by decide)), if_pos (isMark_iff.mpr hparen),
    harguments]
  change Read.outcome (suffixes splice constructors _ rest₁ >>= _) = _
  exact Read.outcome_bind_eq fun _ => rfl

theorem outcome_suffixes_construct {typeName : String} {arguments : List Argument}
    {properties : List PropertyInit} (hbrace : token.kind = .mark .leftBrace)
    (hhead : value.constructorHead? = some (typeName, arguments))
    (h : (propertyList splice rest).outcome = .ok (properties, rest₁)) :
    (suffixes splice true value (token :: rest)).outcome =
      (suffixes splice true
        (.construct value.position typeName arguments properties) rest₁).outcome := by
  obtain ⟨_, hproperties⟩ := Read.eq_ok h
  have hopens : (token.isMark .leftBrace && true) = true := by
    rw [Bool.and_true, isMark_iff.mpr hbrace]
  rw [suffixes, if_neg (isMark_eq_false hbrace (by decide)),
    if_neg (isMark_eq_false hbrace (by decide)), if_pos hopens, hhead]
  dsimp only
  rw [hproperties]
  change Read.outcome (suffixes splice true _ rest₁ >>= _) = _
  exact Read.outcome_bind_eq fun _ => rfl

/-! ## Operands -/

theorem outcome_primary_number {number : Float} (h : token.kind = .number number) :
    (primary splice constructors (token :: rest)).outcome =
      .ok (.number token.position number, rest) := by
  obtain ⟨kind, text, position⟩ := token
  obtain rfl : kind = .number number := h
  rw [primary]
  rfl

theorem outcome_primary_text {content : String} (h : token.kind = .literal .verbatim content) :
    (primary splice constructors (token :: rest)).outcome =
      .ok (.text token.position content, rest) := by
  obtain ⟨kind, text, position⟩ := token
  obtain rfl : kind = .literal .verbatim content := h
  rw [primary]
  rfl

theorem outcome_primary_bool {word : String} (h : token.kind = .name word)
    (hword : word = "true" ∨ word = "false") :
    (primary splice constructors (token :: rest)).outcome =
      .ok (.bool token.position (word == "true"), rest) := by
  obtain ⟨kind, text, position⟩ := token
  obtain rfl : kind = .name word := h
  have hbool : (word == "true" || word == "false") = true := by
    rw [Bool.or_eq_true, beq_iff_eq, beq_iff_eq]
    exact hword
  rw [primary]
  simp only [hbool, if_true]
  rfl

/-- A name is read as one, but for the words of truth and for `Add` in front of a brace. -/
theorem outcome_primary_name {word : String} (h : token.kind = .name word)
    (htrue : word ≠ "true") (hfalse : word ≠ "false")
    (hbrace : word = "Add" → constructors = true → ¬ startsWith .leftBrace rest) :
    (primary splice constructors (token :: rest)).outcome =
      .ok (.name token.position word, rest) := by
  obtain ⟨kind, text, position⟩ := token
  obtain rfl : kind = .name word := h
  have hbool : ¬ (word == "true" || word == "false") = true := by
    rw [Bool.or_eq_true, beq_iff_eq, beq_iff_eq]
    exact fun h => h.elim htrue hfalse
  have hnone : (if (word == "Add" && constructors) = true then mark? .leftBrace rest else none) =
      none := by
    split
    · rename_i hadd
      rw [Bool.and_eq_true, beq_iff_eq] at hadd
      exact mark?_eq_none (hbrace hadd.1 hadd.2)
    · rfl
  rw [primary]
  simp only [hbool, Bool.false_eq_true, if_false]
  rw [hnone]
  rfl

/-- `Add` in front of a brace is called with what stands in the braces. -/
theorem outcome_primary_add {brace : Token} {items : List Expr} (h : token.kind = .name "Add")
    (hbrace : brace.kind = .mark .leftBrace)
    (hitems : (expressionList splice .rightBrace "'\x7d'" rest).outcome = .ok (items, rest₁)) :
    (primary splice true (token :: brace :: rest)).outcome =
      .ok (.call token.position (.name token.position "Add")
        [.positional (.array token.position items)], rest₁) := by
  obtain ⟨kind, text, position⟩ := token
  obtain rfl : kind = .name "Add" := h
  obtain ⟨_, hmark⟩ := mark?_cons hbrace rest
  obtain ⟨_, hread⟩ := Read.eq_ok hitems
  have hsome :
      (if ("Add" == "Add" && true) = true then mark? .leftBrace (brace :: rest) else none) =
        mark? .leftBrace (brace :: rest) := rfl
  rw [primary]
  dsimp only
  rw [if_neg (by decide), hsome, hmark]
  dsimp only
  rw [hread]
  rfl

theorem outcome_primary_array {items : List Expr} (h : token.kind = .mark .leftBracket)
    (hitems : (expressionList splice .rightBracket "']'" rest).outcome = .ok (items, rest₁)) :
    (primary splice constructors (token :: rest)).outcome =
      .ok (.array token.position items, rest₁) := by
  obtain ⟨kind, text, position⟩ := token
  obtain rfl : kind = .mark .leftBracket := h
  obtain ⟨_, hread⟩ := Read.eq_ok hitems
  rw [primary]
  dsimp only
  rw [hread]
  rfl

theorem outcome_primary_parens {close : Token} (h : token.kind = .mark .leftParen)
    (hvalue : (expression splice true rest).outcome = .ok (value, close :: rest₁))
    (hclose : close.kind = .mark .rightParen) :
    (primary splice constructors (token :: rest)).outcome = .ok (value, rest₁) := by
  obtain ⟨kind, text, position⟩ := token
  obtain rfl : kind = .mark .leftParen := h
  obtain ⟨_, hread⟩ := Read.eq_ok hvalue
  obtain ⟨_, htake⟩ := takeMark_cons hclose "')'" rest₁
  rw [primary]
  dsimp only
  rw [hread]
  change Read.outcome (takeMark .rightParen "')'" (close :: rest₁) >>= _) = _
  rw [htake]
  rfl

/-! ## Lists -/

private theorem mark?_other {mark other : Mark} (h : token.kind = .mark mark) (hne : mark ≠ other) :
    mark? other (token :: rest) = none :=
  mark?_eq_none fun hother => hne (Token.Kind.mark.inj (h.symm.trans hother))

theorem outcome_expressionList_nil {close : Mark} {what : String} (h : token.kind = .mark close) :
    (expressionList splice close what (token :: rest)).outcome = .ok ([], rest) := by
  obtain ⟨_, hmark⟩ := mark?_cons h rest
  rw [expressionList, hmark]
  rfl

theorem outcome_expressionList_more {close : Mark} {what : String} {item : Expr}
    {items : List Expr} (hopen : ¬ startsWith close tokens)
    (hitem : (expression splice true tokens).outcome = .ok (item, token :: rest))
    (hcomma : token.kind = .mark .comma)
    (hitems : (expressionList splice close what rest).outcome = .ok (items, rest₁)) :
    (expressionList splice close what tokens).outcome = .ok (item :: items, rest₁) := by
  obtain ⟨_, hitem⟩ := Read.eq_ok hitem
  obtain ⟨_, hitems⟩ := Read.eq_ok hitems
  obtain ⟨_, hmark⟩ := mark?_cons hcomma rest
  rw [expressionList, mark?_eq_none hopen, hitem]
  dsimp only [bind, Except.bind]
  rw [hmark]
  dsimp only
  rw [hitems]
  rfl

theorem outcome_expressionList_last {close : Mark} {what : String} {item : Expr}
    (hopen : ¬ startsWith close tokens)
    (hitem : (expression splice true tokens).outcome = .ok (item, token :: rest))
    (hclose : token.kind = .mark close) (hne : close ≠ .comma) :
    (expressionList splice close what tokens).outcome = .ok ([item], rest) := by
  obtain ⟨_, hitem⟩ := Read.eq_ok hitem
  obtain ⟨_, htake⟩ := takeMark_cons hclose what rest
  rw [expressionList, mark?_eq_none hopen, hitem]
  dsimp only [bind, Except.bind]
  rw [mark?_other hclose hne, htake]
  rfl

theorem outcome_argument_named {name colon : Token} {word : String} {seenNamed : Bool}
    (hname : name.kind = .name word) (hcolon : colon.kind = .mark .colon)
    (hvalue : (expression splice true rest).outcome = .ok (value, rest₁)) :
    (argument splice seenNamed (name :: colon :: rest)).outcome =
      .ok (.named word value, rest₁) := by
  obtain ⟨kind, text, position⟩ := name
  obtain ⟨kind', text', position'⟩ := colon
  obtain rfl : kind = .name word := hname
  obtain rfl : kind' = .mark .colon := hcolon
  obtain ⟨_, hvalue⟩ := Read.eq_ok hvalue
  rw [argument, hvalue]
  rfl

/-- An argument is positional if it does not begin with a name and a colon. -/
theorem outcome_argument_positional
    (hcolon : ∀ name colon rest word, tokens = name :: colon :: rest → name.kind = .name word →
      colon.kind ≠ .mark .colon)
    (hvalue : (expression splice true tokens).outcome = .ok (value, rest₁)) :
    (argument splice false tokens).outcome = .ok (.positional value, rest₁) := by
  obtain ⟨_, hvalue⟩ := Read.eq_ok hvalue
  rw [argument]
  · rw [hvalue]
    rfl
  · rintro name text position text' position' rest rfl
    exact hcolon _ _ _ _ rfl rfl rfl

theorem outcome_argumentList_nil {seenNamed : Bool} (h : token.kind = .mark .rightParen) :
    (argumentList splice seenNamed (token :: rest)).outcome = .ok ([], rest) := by
  obtain ⟨_, hmark⟩ := mark?_cons h rest
  rw [argumentList, hmark]
  rfl

theorem outcome_argumentList_more {seenNamed : Bool} {first : Argument} {others : List Argument}
    (hopen : ¬ startsWith .rightParen tokens)
    (hfirst : (argument splice seenNamed tokens).outcome = .ok (first, token :: rest))
    (hcomma : token.kind = .mark .comma)
    (hothers : (argumentList splice first.isNamed rest).outcome = .ok (others, rest₁)) :
    (argumentList splice seenNamed tokens).outcome = .ok (first :: others, rest₁) := by
  obtain ⟨_, hfirst⟩ := Read.eq_ok hfirst
  obtain ⟨_, hothers⟩ := Read.eq_ok hothers
  obtain ⟨_, hmark⟩ := mark?_cons hcomma rest
  rw [argumentList, mark?_eq_none hopen, hfirst]
  dsimp only [bind, Except.bind]
  rw [hmark]
  dsimp only
  rw [hothers]
  rfl

theorem outcome_argumentList_last {seenNamed : Bool} {first : Argument}
    (hopen : ¬ startsWith .rightParen tokens)
    (hfirst : (argument splice seenNamed tokens).outcome = .ok (first, token :: rest))
    (hclose : token.kind = .mark .rightParen) :
    (argumentList splice seenNamed tokens).outcome = .ok ([first], rest) := by
  obtain ⟨_, hfirst⟩ := Read.eq_ok hfirst
  obtain ⟨_, htake⟩ := takeMark_cons hclose "')' after arguments" rest
  rw [argumentList, mark?_eq_none hopen, hfirst]
  dsimp only [bind, Except.bind]
  rw [mark?_other hclose (by decide), htake]
  rfl

theorem outcome_propertyList_nil (h : token.kind = .mark .rightBrace) :
    (propertyList splice (token :: rest)).outcome = .ok ([], rest) := by
  obtain ⟨_, hmark⟩ := mark?_cons h rest
  rw [propertyList, hmark]
  rfl

section

variable {key colon : Token} {word : String}
  (hkey : key.kind = .name word ∨ key.kind = .literal .verbatim word)
  (hcolon : colon.kind = .mark .colon)
  (hvalue : (expression splice true tokens).outcome = .ok (value, token :: rest))

private theorem not_startsWith_of_key {mark : Mark} {tokens : List Token}
    (h : key.kind = .name word ∨ key.kind = .literal .verbatim word) :
    ¬ startsWith mark (key :: tokens) := fun hmark =>
  h.elim (fun h => Token.Kind.noConfusion (h.symm.trans hmark))
    fun h => Token.Kind.noConfusion (h.symm.trans hmark)

include hkey hcolon hvalue

theorem outcome_propertyList_more {others : List PropertyInit} (hcomma : token.kind = .mark .comma)
    (hothers : (propertyList splice rest).outcome = .ok (others, rest₁)) :
    (propertyList splice (key :: colon :: tokens)).outcome =
      .ok (.mk word value :: others, rest₁) := by
  obtain ⟨_, hname⟩ := takePropertyName_cons hkey (colon :: tokens)
  obtain ⟨_, hvalue⟩ := Read.eq_ok hvalue
  obtain ⟨_, hothers⟩ := Read.eq_ok hothers
  obtain ⟨_, hmark⟩ := mark?_cons hcomma rest
  obtain ⟨_, htake⟩ := takeMark_cons hcolon "':' after property name" tokens
  rw [propertyList, mark?_eq_none (not_startsWith_of_key hkey), hname]
  dsimp only [bind, Except.bind]
  rw [htake]
  dsimp only
  rw [hvalue]
  dsimp only
  rw [hmark]
  dsimp only
  rw [hothers]
  rfl

theorem outcome_propertyList_last (hclose : token.kind = .mark .rightBrace) :
    (propertyList splice (key :: colon :: tokens)).outcome = .ok ([.mk word value], rest) := by
  obtain ⟨_, hname⟩ := takePropertyName_cons hkey (colon :: tokens)
  obtain ⟨_, hvalue⟩ := Read.eq_ok hvalue
  obtain ⟨_, hend⟩ := takeMark_cons hclose "'\x7d'" rest
  obtain ⟨_, htake⟩ := takeMark_cons hcolon "':' after property name" tokens
  rw [propertyList, mark?_eq_none (not_startsWith_of_key hkey), hname]
  dsimp only [bind, Except.bind]
  rw [htake]
  dsimp only
  rw [hvalue]
  dsimp only
  rw [mark?_other hclose (by decide), hend]
  rfl

end

theorem outcome_parameterList_nil (h : token.kind = .mark .rightParen) :
    (parameterList (token :: rest)).outcome = .ok ([], rest) := by
  obtain ⟨_, hmark⟩ := mark?_cons h rest
  rw [parameterList, hmark]
  rfl

theorem outcome_parameterList_more {word : Token} {name : String} {others : List String}
    (hname : word.kind = .name name) (hcomma : token.kind = .mark .comma)
    (hothers : (parameterList rest).outcome = .ok (others, rest₁)) :
    (parameterList (word :: token :: rest)).outcome = .ok (name :: others, rest₁) := by
  obtain ⟨_, hothers⟩ := Read.eq_ok hothers
  obtain ⟨_, hmark⟩ := mark?_cons hcomma rest
  obtain ⟨_, htake⟩ := takeName_cons hname (token :: rest)
  rw [parameterList, mark?_eq_none (not_startsWith_of_name hname), htake]
  dsimp only [bind, Except.bind]
  rw [hmark]
  dsimp only
  rw [hothers]
  rfl

theorem outcome_parameterList_last {word : Token} {name : String}
    (hname : word.kind = .name name) (hclose : token.kind = .mark .rightParen) :
    (parameterList (word :: token :: rest)).outcome = .ok ([name], rest) := by
  obtain ⟨_, hend⟩ := takeMark_cons hclose "')' after parameters" rest
  obtain ⟨_, htake⟩ := takeName_cons hname (token :: rest)
  rw [parameterList, mark?_eq_none (not_startsWith_of_name hname), htake]
  dsimp only [bind, Except.bind]
  rw [mark?_other hclose (by decide), hend]
  rfl

/-! ## Statements -/

theorem outcome_statement_define {word name paren : Token} {function : String}
    {parameters : List String} {body : List Stmt} (hword : word.kind = .name "func")
    (hname : name.kind = .name function) (hparen : paren.kind = .mark .leftParen)
    (hparameters : (parameterList tokens).outcome = .ok (parameters, rest))
    (hbody : (block splice rest).outcome = .ok (body, rest₁)) :
    (statement splice (word :: name :: paren :: tokens)).outcome =
      .ok (.define word.position function parameters body, rest₁) := by
  obtain ⟨kind, text, position⟩ := word
  obtain ⟨kind', text', position'⟩ := name
  obtain rfl : kind = .name "func" := hword
  obtain rfl : kind' = .name function := hname
  obtain ⟨_, htake⟩ := takeMark_cons hparen "'(' after function name" tokens
  obtain ⟨_, hparameters⟩ := Read.eq_ok hparameters
  obtain ⟨_, hbody⟩ := Read.eq_ok hbody
  rw [statement, htake]
  dsimp only [bind, Except.bind]
  rw [hparameters]
  dsimp only
  rw [hbody]
  rfl

theorem outcome_statement_loop {word : Token} {count : Expr} {body : List Stmt}
    (hword : word.kind = .name "repeat")
    (hcount : (expression splice false tokens).outcome = .ok (count, rest))
    (hbody : (block splice rest).outcome = .ok (body, rest₁)) :
    (statement splice (word :: tokens)).outcome =
      .ok (.loop word.position count body, rest₁) := by
  obtain ⟨kind, text, position⟩ := word
  obtain rfl : kind = .name "repeat" := hword
  obtain ⟨_, hcount⟩ := Read.eq_ok hcount
  obtain ⟨_, hbody⟩ := Read.eq_ok hbody
  rw [statement, hcount]
  dsimp only [bind, Except.bind]
  rw [hbody]
  rfl

theorem outcome_statement_wait {word : Token} (hword : word.kind = .name "wait")
    (hvalue : (expression splice true tokens).outcome = .ok (value, rest)) :
    (statement splice (word :: tokens)).outcome = .ok (.wait word.position value, rest) := by
  obtain ⟨kind, text, position⟩ := word
  obtain rfl : kind = .name "wait" := hword
  obtain ⟨_, hvalue⟩ := Read.eq_ok hvalue
  rw [statement, hvalue]
  rfl

theorem outcome_statement_wait_error {word : Token} {d : Diagnostic}
    (hword : word.kind = .name "wait")
    (hvalue : (expression splice true tokens).outcome = .error d) :
    (statement splice (word :: tokens)).outcome = .error d := by
  obtain ⟨kind, text, position⟩ := word
  obtain rfl : kind = .name "wait" := hword
  rw [statement, Read.eq_error hvalue]
  rfl

theorem outcome_statement_leave_value {word : Token} (hword : word.kind = .name "return")
    (hreturns : returnsValue word.position.line tokens = true)
    (hvalue : (expression splice true tokens).outcome = .ok (value, rest)) :
    (statement splice (word :: tokens)).outcome =
      .ok (.leave word.position (some value), rest) := by
  obtain ⟨kind, text, position⟩ := word
  obtain rfl : kind = .name "return" := hword
  obtain ⟨_, hvalue⟩ := Read.eq_ok hvalue
  rw [statement, if_pos hreturns, hvalue]
  rfl

theorem outcome_statement_leave {word : Token} (hword : word.kind = .name "return")
    (hreturns : returnsValue word.position.line tokens = false) :
    (statement splice (word :: tokens)).outcome = .ok (.leave word.position none, tokens) := by
  obtain ⟨kind, text, position⟩ := word
  obtain rfl : kind = .name "return" := hword
  rw [statement, if_neg (by rw [hreturns]; exact Bool.false_ne_true)]
  rfl

/-- Whether some tokens begin with none of the words that tell a statement. `func` is one in front
of another name only. -/
structure Bare (tokens : List Token) : Prop where
  word : ∀ token rest, tokens = token :: rest →
    token.kind ≠ .name "repeat" ∧ token.kind ≠ .name "wait" ∧ token.kind ≠ .name "return"
  pair : ∀ token next rest name, tokens = token :: next :: rest → token.kind = .name "func" →
    next.kind ≠ .name name

theorem bare_of_not_name (h : ∀ word, token.kind ≠ .name word) : Bare (token :: tokens) where
  word first rest heq := by
    obtain ⟨rfl, -⟩ := List.cons.inj heq
    exact ⟨h _, h _, h _⟩
  pair first next rest name heq hfunc := by
    obtain ⟨rfl, -⟩ := List.cons.inj heq
    exact absurd hfunc (h _)

/-- A statement that begins with no such word is an expression or an assignment. -/
private theorem statement_outcome (hbare : Bare tokens)
    (hvalue : (expression splice true tokens).outcome = .ok (value, rest)) :
    (statement splice tokens).outcome =
      match mark? .assign rest with
      | none => .ok (.expr (front tokens).position value, rest)
      | some ⟨_, behind, _⟩ =>
        if value.isTarget then
          (expression splice true behind).outcome.map fun (assigned, rest) =>
            (.assign (front tokens).position value assigned, rest)
        else .error ⟨.invalidTarget, value.position⟩ := by
  obtain ⟨_, hvalue⟩ := Read.eq_ok hvalue
  rw [statement]
  · rw [hvalue]
    dsimp only [bind, Except.bind]
    cases mark? .assign rest with
    | none => rfl
    | some reading =>
      dsimp only
      split
      · cases expression splice true reading.rest <;> rfl
      · rfl
  · rintro text position name text' position' rest rfl
    exact hbare.pair _ _ _ name rfl rfl rfl
  · rintro text position rest rfl
    exact (hbare.word _ _ rfl).1 rfl
  · rintro text position rest rfl
    exact (hbare.word _ _ rfl).2.1 rfl
  · rintro text position rest rfl
    exact (hbare.word _ _ rfl).2.2 rfl

theorem outcome_statement_expr (hbare : Bare tokens)
    (hvalue : (expression splice true tokens).outcome = .ok (value, rest))
    (hassign : ¬ startsWith .assign rest) :
    (statement splice tokens).outcome = .ok (.expr (front tokens).position value, rest) := by
  rw [statement_outcome hbare hvalue, mark?_eq_none hassign]

theorem outcome_statement_assign {assign : Token} {target : Expr} {rest₂ : List Token}
    (hbare : Bare tokens)
    (htarget : (expression splice true tokens).outcome = .ok (target, assign :: rest))
    (hassign : assign.kind = .mark .assign) (hassigned : target.isTarget = true)
    (hvalue : (expression splice true rest).outcome = .ok (value, rest₂)) :
    (statement splice tokens).outcome =
      .ok (.assign (front tokens).position target value, rest₂) := by
  obtain ⟨_, hmark⟩ := mark?_cons hassign rest
  rw [statement_outcome hbare htarget, hmark]
  dsimp only
  rw [if_pos hassigned, hvalue]
  rfl

/-- What stops an expression stops the statement that begins with it. -/
theorem outcome_statement_error {d : Diagnostic} (hbare : Bare tokens)
    (hvalue : (expression splice true tokens).outcome = .error d) :
    (statement splice tokens).outcome = .error d := by
  rw [statement]
  · rw [Read.eq_error hvalue]
    rfl
  · rintro text position name text' position' rest rfl
    exact hbare.pair _ _ _ name rfl rfl rfl
  · rintro text position rest rfl
    exact (hbare.word _ _ rfl).1 rfl
  · rintro text position rest rfl
    exact (hbare.word _ _ rfl).2.1 rfl
  · rintro text position rest rfl
    exact (hbare.word _ _ rfl).2.2 rfl

/-! ## Blocks and programs -/

theorem skipSemicolons_cons (h : token.kind = .mark .semicolon) :
    skipSemicolons (token :: rest) = skipSemicolons rest :=
  List.dropWhile_cons_of_pos (isMark_iff.mpr h)

theorem skipSemicolons_eq (h : ¬ startsWith .semicolon tokens) : skipSemicolons tokens = tokens := by
  cases tokens with
  | nil => rfl
  | cons token rest => exact List.dropWhile_cons_of_neg fun hmark => h (isMark_iff.mp hmark)

/-- The semicolons in front of some tokens. -/
theorem exists_semicolons (tokens : List Token) :
    ∃ semicolons, tokens = semicolons ++ skipSemicolons tokens ∧
      ∀ token ∈ semicolons, token.kind = .mark .semicolon := by
  refine ⟨tokens.takeWhile (Token.isMark .semicolon), (List.takeWhile_append_dropWhile).symm,
    fun token hmem => ?_⟩
  exact isMark_iff.mp (List.mem_takeWhile_imp hmem)

theorem not_startsWith_skipSemicolons (tokens : List Token) :
    ¬ startsWith .semicolon (skipSemicolons tokens) := by
  induction tokens with
  | nil => nofun
  | cons token rest ih =>
    by_cases h : token.kind = .mark .semicolon
    · rw [skipSemicolons_cons h]
      exact ih
    · have hstarts : ¬ startsWith .semicolon (token :: rest) := h
      rw [skipSemicolons_eq hstarts]
      exact hstarts

theorem outcome_block {brace : Token} {body : List Stmt} (hbrace : brace.kind = .mark .leftBrace)
    (hbody : (blockBody splice tokens).outcome = .ok (body, rest)) :
    (block splice (brace :: tokens)).outcome = .ok (body, rest) := by
  obtain ⟨_, htake⟩ := takeMark_cons hbrace "'\x7b'" tokens
  obtain ⟨_, hbody⟩ := Read.eq_ok hbody
  rw [block, htake]
  dsimp only [bind, Except.bind]
  rw [hbody]
  rfl

/-- What a body gives that begins with no semicolon. -/
private def bodyOutcome (splice : Position → List Char → Except Diagnostic (List Part))
    (inner : List Token) : Except Diagnostic (List Stmt × List Token) :=
  match mark? .rightBrace inner with
  | some reading => .ok ([], reading.rest)
  | none =>
    if (front inner).isFinish then .error ⟨.unclosedBlock, (front inner).position⟩
    else do
      let (first, rest) ← (statement splice inner).outcome
      let (others, last) ← (blockBody splice rest).outcome
      return (first :: others, last)

private theorem outcome_blockBody_eq :
    (blockBody splice tokens).outcome = bodyOutcome splice (skipSemicolons tokens) := by
  rw [blockBody, bodyOutcome]
  dsimp only
  cases mark? .rightBrace (skipSemicolons tokens) with
  | some reading => rfl
  | none =>
    dsimp only
    split
    · rfl
    · cases statement splice (skipSemicolons tokens) with
      | error e => rfl
      | ok reading =>
        dsimp only [bind, Except.bind, Read.outcome, Except.map]
        cases blockBody splice reading.rest <;> rfl

theorem outcome_blockBody_semicolon (h : token.kind = .mark .semicolon) :
    (blockBody splice (token :: rest)).outcome = (blockBody splice rest).outcome := by
  rw [outcome_blockBody_eq, outcome_blockBody_eq, skipSemicolons_cons h]

theorem outcome_blockBody_semicolons {semicolons : List Token}
    (h : ∀ token ∈ semicolons, token.kind = .mark .semicolon) :
    (blockBody splice (semicolons ++ tokens)).outcome = (blockBody splice tokens).outcome := by
  induction semicolons with
  | nil => rfl
  | cons token rest ih =>
    rw [List.forall_mem_cons] at h
    exact (outcome_blockBody_semicolon h.1).trans (ih h.2)

theorem outcome_blockBody_nil (h : token.kind = .mark .rightBrace) :
    (blockBody splice (token :: rest)).outcome = .ok ([], rest) := by
  have hsemicolon : ¬ startsWith .semicolon (token :: rest) := fun hmark =>
    Mark.noConfusion (Token.Kind.mark.inj (h.symm.trans hmark))
  obtain ⟨_, hmark⟩ := mark?_cons h rest
  rw [outcome_blockBody_eq, skipSemicolons_eq hsemicolon, bodyOutcome, hmark]

/-- Whether a statement can begin here: at no semicolon, closing brace or end. -/
def Begins (tokens : List Token) : Prop :=
  ¬ startsWith .semicolon tokens ∧ ¬ startsWith .rightBrace tokens ∧ (front tokens).kind ≠ .finish

theorem isFinish_iff {token : Token} : token.isFinish = true ↔ token.kind = .finish := by
  unfold Token.isFinish
  cases token.kind <;> simp

theorem outcome_blockBody_cons {first : Stmt} {others : List Stmt} (hbegins : Begins tokens)
    (hfirst : (statement splice tokens).outcome = .ok (first, rest))
    (hothers : (blockBody splice rest).outcome = .ok (others, rest₁)) :
    (blockBody splice tokens).outcome = .ok (first :: others, rest₁) := by
  obtain ⟨hsemicolon, hbrace, hfinish⟩ := hbegins
  rw [outcome_blockBody_eq, skipSemicolons_eq hsemicolon, bodyOutcome, mark?_eq_none hbrace]
  dsimp only
  rw [if_neg fun h => hfinish (isFinish_iff.mp h), hfirst]
  dsimp only [bind, Except.bind]
  rw [hothers]
  rfl

/-- What a program gives that begins with no semicolon. -/
def programOutcome (splice : Position → List Char → Except Diagnostic (List Part))
    (inner : List Token) : List Stmt × Option Diagnostic :=
  if (front inner).isFinish then ([], none)
  else
    match (statement splice inner).outcome with
    | .error diagnostic => ([], some diagnostic)
    | .ok (first, rest) =>
      let (others, diagnostic) := program splice rest
      (first :: others, diagnostic)

theorem program_eq :
    program splice tokens = programOutcome splice (skipSemicolons tokens) := by
  rw [program, programOutcome]
  dsimp only
  split
  · rfl
  · cases statement splice (skipSemicolons tokens) <;> rfl

theorem program_semicolon (h : token.kind = .mark .semicolon) :
    program splice (token :: rest) = program splice rest := by
  rw [program_eq, program_eq, skipSemicolons_cons h]

theorem program_semicolons {semicolons : List Token}
    (h : ∀ token ∈ semicolons, token.kind = .mark .semicolon) :
    program splice (semicolons ++ tokens) = program splice tokens := by
  induction semicolons with
  | nil => rfl
  | cons token rest ih =>
    rw [List.forall_mem_cons] at h
    exact (program_semicolon h.1).trans (ih h.2)

theorem program_finish (h : (front tokens).kind = .finish) : program splice tokens = ([], none) := by
  have hsemicolon : ¬ startsWith .semicolon tokens := fun hmark =>
    Token.Kind.noConfusion (h.symm.trans hmark)
  rw [program_eq, skipSemicolons_eq hsemicolon, programOutcome, if_pos (isFinish_iff.mpr h)]

theorem program_error {d : Diagnostic} (hsemicolon : ¬ startsWith .semicolon tokens)
    (hfinish : (front tokens).kind ≠ .finish)
    (hfirst : (statement splice tokens).outcome = .error d) :
    program splice tokens = ([], some d) := by
  rw [program_eq, skipSemicolons_eq hsemicolon, programOutcome,
    if_neg fun h => hfinish (isFinish_iff.mp h), hfirst]

theorem program_cons {first : Stmt} {others : List Stmt} {problem : Option Diagnostic}
    (hsemicolon : ¬ startsWith .semicolon tokens) (hfinish : (front tokens).kind ≠ .finish)
    (hfirst : (statement splice tokens).outcome = .ok (first, rest))
    (hothers : program splice rest = (others, problem)) :
    program splice tokens = (first :: others, problem) := by
  rw [program_eq, skipSemicolons_eq hsemicolon, programOutcome,
    if_neg fun h => hfinish (isFinish_iff.mp h), hfirst]
  dsimp only
  rw [hothers]

/-! ## Readers -/

/-- A reader puts the end of the text behind tokens that do not hold it. -/
theorem ofTokens_of_not_mem {tokens : List Token}
    (h : ∀ token ∈ tokens, token.kind ≠ .finish) :
    ∃ finish : Token, finish.kind = .finish ∧ Reader.ofTokens tokens = ⟨tokens ++ [finish], none⟩ := by
  rw [Reader.ofTokens]
  cases hlast : tokens.getLast? with
  | none =>
    obtain rfl := List.getLast?_eq_none_iff.mp hlast
    exact ⟨.atEnd .start, rfl, rfl⟩
  | some last =>
    have hmem : last ∈ tokens := List.mem_of_getLast? hlast
    refine ⟨.atEnd last.position, rfl, ?_⟩
    dsimp only
    rw [if_neg fun hfinish => h last hmem (isFinish_iff.mp hfinish)]

theorem ofTokens_of_finish {tokens : List Token} {finish : Token}
    (h : finish.kind = .finish) :
    Reader.ofTokens (tokens ++ [finish]) = ⟨tokens ++ [finish], none⟩ := by
  rw [Reader.ofTokens, List.getLast?_concat]
  dsimp only
  rw [if_pos (isFinish_iff.mpr h)]

/-- A reader ends with the end of its text if no end stands before it. -/
theorem ofTokens_dropLast {tokens : List Token}
    (h : ∀ token ∈ tokens.dropLast, token.isFinish = false) :
    ∀ token ∈ (Reader.ofTokens tokens).tokens.dropLast, token.isFinish = false := by
  rw [Reader.ofTokens]
  split
  · exact nofun
  · rename_i last hlast
    dsimp only
    split
    · exact h
    · rename_i hend
      rw [List.dropLast_concat]
      intro token hmem
      rw [← List.dropLast_append_getLast? last hlast] at hmem
      rcases List.mem_append.mp hmem with hmem | hmem
      · exact h token hmem
      · rw [List.mem_singleton.mp hmem]
        exact Bool.eq_false_iff.mpr hend

/-- What a reader has in front of its last token stands in front of the tokens. -/
theorem prefixed_dropLast_ofTokens (tokens : List Token) :
    (Reader.ofTokens tokens).tokens.dropLast <+: tokens := by
  rw [Reader.ofTokens]
  split
  · exact List.nil_prefix
  · dsimp only
    split
    · exact List.dropLast_prefix tokens
    · simp only [List.dropLast_concat, List.prefix_refl]

theorem statements_ofTokens (tokens : List Token) :
    (Reader.ofTokens tokens).statements =
      ((program Script.splice (Reader.ofTokens tokens).tokens).1,
        ⟨[], (program Script.splice (Reader.ofTokens tokens).tokens).2⟩) := by
  rw [Reader.ofTokens]
  split <;> rfl

end Animatic.Script
