import Animatic.Proofs.Script.Outcome
import Animatic.Proofs.Script.Progress

/-!
# A parser reads what the grammar reads

A rule of the parser, with a budget in proportion to the tokens ahead, reads the value that the
grammar reads from them and comes to stand in front of the tokens that the grammar leaves, or halts
with the problem that ends the grammar's reading.

* `Faces`: a parser stands in front of some tokens.
* `Follows`: a rule of the parser reads what a reading of the grammar gives.
* `expression_follows`, `statement_follows`: the rules of the parser follow those of the grammar.
-/

namespace Animatic.Script.Parser

variable {α β : Type} {n m : Nat} {p : Parser} {stream tokens rest : List Token}
  {constructors : Bool}

/-! ## The tokens ahead -/

/-- A parser of a stream, in a mode, has some tokens ahead of it. -/
structure Faces (stream : List Token) (constructors : Bool) (p : Parser) (tokens : List Token) :
    Prop where
  standing : p.Standing
  stream : p.tokens = stream
  mode : p.constructors = constructors
  ahead : p.tokens.drop p.place = tokens

namespace Faces

theorem ne_nil (h : Faces stream constructors p tokens) : tokens ≠ [] := by
  have hbound := h.standing.bound
  have hahead := congrArg List.length h.ahead
  rw [List.length_drop] at hahead
  rintro rfl
  rw [List.length_nil] at hahead
  omega

theorem subset (h : Faces stream constructors p tokens) : tokens ⊆ stream := by
  rw [← h.ahead, ← h.stream]
  exact List.drop_subset _ _

theorem peekAt_zero (h : Faces stream constructors p tokens) : p.peekAt 0 = front tokens := by
  have hbound := h.standing.bound
  have hplace : min (p.place + 0) (p.tokens.length - 1) = p.place + 0 := by omega
  rw [peekAt, hplace, List.getD_eq_getElem?_getD, ← List.getElem?_drop, h.ahead]
  cases tokens <;> rfl

theorem peekAt_one {token next : Token} (h : Faces stream constructors p (token :: next :: rest)) :
    p.peekAt 1 = next := by
  have hlength := congrArg List.length h.ahead
  rw [List.length_drop, List.length_cons, List.length_cons] at hlength
  have hplace : min (p.place + 1) (p.tokens.length - 1) = p.place + 1 := by omega
  rw [peekAt, hplace, List.getD_eq_getElem?_getD, ← List.getElem?_drop, h.ahead]
  rfl

/-- The last token ends the text. -/
theorem isFinish_of_singleton {token : Token} (h : Faces stream constructors p [token]) :
    token.isFinish = true := by
  obtain ⟨finish, hlast, hfinish⟩ := h.standing.ended
  have hdrop : (p.tokens.drop p.place).getLast? = some finish := by
    rw [List.getLast?_drop, if_neg (Nat.not_le.mpr h.standing.bound)]
    exact hlast
  rw [h.ahead] at hdrop
  obtain rfl := Option.some.inj hdrop
  exact hfinish

/-- A token that does not end the text is passed, and another one stands behind it. -/
theorem advanced {token : Token} (h : Faces stream constructors p (token :: rest))
    (htoken : token.isFinish = false) : Faces stream constructors p.advanced rest := by
  have hfront : (p.peekAt 0).isFinish = false := by
    rw [h.peekAt_zero]
    exact htoken
  have hpasses := h.standing.advanced hfront
  refine ⟨hpasses.standing h.standing, hpasses.tokens.trans h.stream,
    hpasses.constructors.trans h.mode, ?_⟩
  rw [Parser.advanced, hfront]
  change p.tokens.drop (p.place + 1) = rest
  rw [← List.drop_drop, h.ahead, List.drop_one, List.tail_cons]

theorem inMode (h : Faces stream constructors p tokens) (other : Bool) :
    Faces stream other { p with constructors := other } tokens :=
  ⟨⟨h.standing.bound, h.standing.ended⟩, h.stream, rfl, h.ahead⟩

end Faces

/-! ## Rules that follow the grammar -/

/-- What a rule has given is an outcome, in a stream and in a mode. -/
inductive Matches (stream : List Token) (constructors : Bool) :
    Except Diagnostic (α × List Token) → EStateM.Result Halt Parser α → Prop where
  | ok {value : α} {rest : List Token} {q : Parser} (ahead : Faces stream constructors q rest) :
      Matches stream constructors (.ok (value, rest)) (.ok value q)
  | error (d : Diagnostic) (q : Parser) :
      Matches stream constructors (.error d) (.error (.problem d) q)

/-- A rule gives what a reading gives, for any parser of a stream, in a mode, that has the tokens
ahead. -/
def Follows (stream : List Token) (constructors : Bool) (tokens : List Token) (rule : Parsing α)
    (r : Read α n) : Prop :=
  ∀ p, Faces stream constructors p tokens → Matches stream constructors r.outcome (rule.run p)

section

variable {rule : Parsing α} {r : Read α n}

theorem follows_nil : Follows stream constructors [] rule r := fun _ hp => absurd rfl hp.ne_nil

theorem follows_pure (value : α) (shorter : tokens.length < n) :
    Follows stream constructors tokens (pure value) (.ok ⟨value, tokens, shorter⟩ : Read α n) :=
  fun _ hp => .ok hp

theorem follows_throw (d : Diagnostic) :
    Follows stream constructors tokens (throw (.problem d)) (.error d : Read α n) :=
  fun p _ => .error d p

theorem Follows.congr {r' : Read α m} (h : Follows stream constructors tokens rule r)
    (heq : r'.outcome = r.outcome) : Follows stream constructors tokens rule r' :=
  fun p hp => heq ▸ h p hp

/-- A rule follows a reading that passes on what another one gives. -/
theorem Follows.pass {f : Reading α n → Read α m} (h : Follows stream constructors tokens rule r)
    (hf : ∀ reading, (f reading).outcome = .ok (reading.value, reading.rest)) :
    Follows stream constructors tokens rule (r >>= f) :=
  h.congr (Read.outcome_bind_eq hf)

theorem Follows.bind {next : α → Parsing β} {f : Reading α n → Read β m}
    (h : Follows stream constructors tokens rule r)
    (hnext : ∀ value rest shorter,
      Follows stream constructors rest (next value) (f ⟨value, rest, shorter⟩)) :
    Follows stream constructors tokens (rule >>= next) (r >>= f) := by
  intro p hp
  rw [EStateM.run_bind]
  have hmatches := h p hp
  generalize rule.run p = result at hmatches ⊢
  cases r with
  | error d =>
    cases hmatches with
    | error d q => exact .error d q
  | ok reading =>
    cases hmatches with
    | ok ahead => exact hnext _ _ reading.shorter _ ahead

theorem Follows.inMode {other : Bool} (h : Follows stream other tokens rule r) :
    Follows stream constructors tokens (withMode other rule) r := by
  intro p hp
  rw [withMode_run]
  have hmatches := h _ (hp.inMode other)
  generalize rule.run { p with constructors := other } = result at hmatches ⊢
  generalize r.outcome = outcome at hmatches ⊢
  cases hmatches with
  | ok ahead => exact .ok (hp.mode ▸ ahead.inMode p.constructors)
  | error d q => exact .error d _

end

/-! ## Tokens -/

section

variable {mark : Mark} {token second : Token} {rule : Parsing α} {r : Read α n}

theorem follows_peek {next : Token → Parsing α}
    (h : Follows stream constructors tokens (next (front tokens)) r) :
    Follows stream constructors tokens (peek 0 >>= next) r := by
  intro p hp
  change Matches stream constructors r.outcome ((next (p.peekAt 0)).run p)
  rw [hp.peekAt_zero]
  exact h p hp

theorem follows_peek_front {next : Token → Parsing α}
    (h : Follows stream constructors (token :: rest) (next token) r) :
    Follows stream constructors (token :: rest) (peek 0 >>= next) r := follows_peek h

theorem follows_peek_next {next : Token → Parsing α}
    (h : Follows stream constructors (token :: second :: rest) (next second) r) :
    Follows stream constructors (token :: second :: rest) (peek 1 >>= next) r := by
  intro p hp
  change Matches stream constructors r.outcome ((next (p.peekAt 1)).run p)
  rw [hp.peekAt_one]
  exact h p hp

/-- Behind a name stands the token that is seen. -/
theorem follows_peek_second {next : Token → Parsing α}
    (h : ∀ seen, (∀ name, (front tokens).kind = .name name →
      ∃ text position rest, tokens = ⟨.name name, text, position⟩ :: seen :: rest) →
        Follows stream constructors tokens (next seen) r) :
    Follows stream constructors tokens (peek 1 >>= next) r := by
  intro p hp
  refine h (p.peekAt 1) (fun name hname => ?_) p hp
  match tokens, hp with
  | [], hp => exact absurd rfl hp.ne_nil
  | [⟨kind, text, position⟩], hp =>
    obtain rfl : kind = .name name := hname
    cases hp.isFinish_of_singleton
  | ⟨kind, text, position⟩ :: second :: rest, hp =>
    obtain rfl : kind = .name name := hname
    exact ⟨text, position, rest, by rw [hp.peekAt_one]⟩

/-- Whatever token is seen. -/
theorem follows_peek_any {offset : Nat} {next : Token → Parsing α}
    (h : ∀ seen, Follows stream constructors tokens (next seen) r) :
    Follows stream constructors tokens (peek offset >>= next) r :=
  fun p hp => h (p.peekAt offset) p hp

theorem follows_mode {next : Bool → Parsing α}
    (h : Follows stream constructors tokens (next constructors) r) :
    Follows stream constructors tokens (mode >>= next) r := by
  intro p hp
  change Matches stream constructors r.outcome ((next p.constructors).run p)
  rw [hp.mode]
  exact h p hp

theorem follows_check {next : Bool → Parsing α}
    (h : Follows stream constructors tokens (next ((front tokens).isMark mark)) r) :
    Follows stream constructors tokens (check mark >>= next) r := by
  intro p hp
  change Matches stream constructors r.outcome ((next ((p.peekAt 0).isMark mark)).run p)
  rw [hp.peekAt_zero]
  exact h p hp

theorem follows_advance (htoken : token.isFinish = false)
    (h : Follows stream constructors rest rule r) :
    Follows stream constructors (token :: rest) (advance >>= fun _ => rule) r :=
  fun p hp => h p.advanced (hp.advanced htoken)

theorem isMark_front_eq_true {reading : Reading Unit tokens.length}
    (h : mark? mark tokens = some reading) : (front tokens).isMark mark = true := by
  obtain ⟨token, htokens, hkind⟩ := mark?_eq_some h
  rw [htokens]
  exact isMark_iff.mpr hkind

theorem isMark_front_eq_false (h : mark? mark tokens = none) :
    (front tokens).isMark mark = false :=
  Bool.eq_false_iff.mpr fun hmark => not_startsWith_of_mark? h (isMark_iff.mp hmark)

/-- A mark that is in front is passed. -/
theorem follows_advance_some {reading : Reading Unit tokens.length}
    (hmark : mark? mark tokens = some reading)
    (h : Follows stream constructors reading.rest rule r) :
    Follows stream constructors tokens (advance >>= fun _ => rule) r := by
  intro p hp
  obtain ⟨token, htokens, hkind⟩ := mark?_eq_some hmark
  rw [htokens] at hp
  exact follows_advance (isFinish_of_isMark (isMark_iff.mpr hkind)) h p hp

theorem follows_eat_some {next : Bool → Parsing α} {reading : Reading Unit tokens.length}
    (hmark : mark? mark tokens = some reading)
    (h : Follows stream constructors reading.rest (next true) r) :
    Follows stream constructors tokens (eat mark >>= next) r := by
  rw [eat, bind_assoc]
  refine follows_check ?_
  rw [if_pos (isMark_front_eq_true hmark), bind_assoc]
  exact follows_advance_some hmark h

theorem follows_eat_none {next : Bool → Parsing α} (hmark : mark? mark tokens = none)
    (h : Follows stream constructors tokens (next false) r) :
    Follows stream constructors tokens (eat mark >>= next) r := by
  rw [eat, bind_assoc]
  refine follows_check ?_
  rw [isMark_front_eq_false hmark]
  exact h

theorem refuse_follows (what : String) :
    Follows stream constructors tokens (refuse what) (.error (expected what tokens) : Read α n) :=
  follows_peek (follows_throw _)

theorem expect_follows (mark : Mark) (what : String) (tokens : List Token) :
    Follows stream constructors tokens (expect mark what) (takeMark mark what tokens) := by
  rw [takeMark]
  cases hmark : mark? mark tokens with
  | some reading => exact follows_eat_some hmark (follows_pure () reading.shorter)
  | none => exact follows_eat_none hmark (refuse_follows what)

theorem follows_expect_front {what : String} (hmark : token.isMark mark = true)
    (h : Follows stream constructors rest rule r) :
    Follows stream constructors (token :: rest) (expect mark what >>= fun _ => rule) r := by
  obtain ⟨_, hsome⟩ := mark?_cons (isMark_iff.mp hmark) rest
  rw [expect, bind_assoc]
  exact follows_eat_some hsome h

theorem expectName_follows (tokens : List Token) :
    Follows stream constructors tokens expectName (takeName tokens) := by
  cases tokens with
  | nil => exact follows_nil
  | cons token rest =>
    obtain ⟨kind, text, position⟩ := token
    refine follows_peek ?_
    cases kind with
    | name name => exact follows_advance rfl (follows_pure name _)
    | _ => exact refuse_follows _

theorem follows_expectName_front {name text : String} {position : Position}
    {next : String → Parsing α} (h : Follows stream constructors rest (next name) r) :
    Follows stream constructors (⟨.name name, text, position⟩ :: rest) (expectName >>= next) r := by
  rw [expectName, bind_assoc]
  exact follows_peek_front (follows_advance rfl h)

theorem expectPropertyName_follows (tokens : List Token) :
    Follows stream constructors tokens expectPropertyName (takePropertyName tokens) := by
  cases tokens with
  | nil => exact follows_nil
  | cons token rest =>
    obtain ⟨kind, text, position⟩ := token
    refine follows_peek ?_
    cases kind with
    | name name => exact follows_advance rfl (follows_pure name _)
    | literal style name =>
      cases style with
      | verbatim => exact follows_advance rfl (follows_pure name _)
      | _ => exact refuse_follows _
    | _ => exact refuse_follows _

end

/-- The names of parameters and the parenthesis behind them. -/
theorem parameters_follow {budget : Nat} (h : tokens.length < budget) :
    Follows stream constructors tokens (do
      let names ← parameters budget
      expect .rightParen "')' after parameters"
      return names) (parameterList tokens) := by
  induction budget generalizing tokens with
  | zero => exact absurd h (Nat.not_lt_zero _)
  | succ budget ih =>
    rw [parameterList, parameters, bind_assoc]
    refine follows_check ?_
    cases hclose : mark? .rightParen tokens with
    | some reading =>
      rw [if_pos (isMark_front_eq_true hclose), pure_bind, expect, bind_assoc]
      exact follows_eat_some hclose (follows_pure [] reading.shorter)
    | none =>
      rw [isMark_front_eq_false hclose]
      simp only [Bool.false_eq_true, if_false, bind_assoc]
      refine (expectName_follows tokens).bind fun name rest₁ h₁ => ?_
      dsimp only
      cases hcomma : mark? .comma rest₁ with
      | some reading =>
        have hshorter := reading.shorter
        -- The name in front is put to the others before or behind the parenthesis alike.
        have hmore : (do
            let names ← parameters budget
            expect .rightParen "')' after parameters"
            return name :: names) = (do
              let names ← parameters budget
              expect .rightParen "')' after parameters"
              return names) >>= fun names => return name :: names := by
          simp only [bind_assoc, pure_bind]
        refine follows_eat_some hcomma ?_
        simp only [if_true, bind_assoc, pure_bind]
        rw [hmore]
        exact (ih (by omega)).bind fun names rest₂ h₂ => follows_pure _ _
      | none =>
        refine follows_eat_none hcomma ?_
        simp only [Bool.false_eq_true, if_false, pure_bind]
        exact (expect_follows _ _ rest₁).bind fun _ rest₂ h₂ => follows_pure _ _

theorem Follows.parameters_bind {budget : Nat} {next : List String → Parsing α}
    {f : Reading (List String) tokens.length → Read α n} (h : tokens.length < budget)
    (hnext : ∀ names rest shorter,
      Follows stream constructors rest (next names) (f ⟨names, rest, shorter⟩)) :
    Follows stream constructors tokens (do
      let names ← parameters budget
      expect .rightParen "')' after parameters"
      next names) (parameterList tokens >>= f) := by
  have hparameters : Follows stream constructors tokens _ (parameterList tokens) :=
    parameters_follow h
  have hrule := hparameters.bind hnext
  simp only [bind_assoc, pure_bind] at hrule
  exact hrule

/-- The semicolons in front are skipped, and whatever is read behind them is read. -/
theorem skipSemicolons_follows {budget : Nat} {rule : Parsing α} {r : Read α n}
    (h : tokens.length < budget)
    (hrule : Follows stream constructors (Script.skipSemicolons tokens) rule r) :
    Follows stream constructors tokens (skipSemicolons budget >>= fun _ => rule) r := by
  induction budget generalizing tokens with
  | zero => exact absurd h (Nat.not_lt_zero _)
  | succ budget ih =>
    rw [skipSemicolons, bind_assoc]
    cases hmark : mark? .semicolon tokens with
    | some reading =>
      obtain ⟨token, htokens, hkind⟩ := mark?_eq_some hmark
      have hshorter := reading.shorter
      rw [htokens, skipSemicolons_cons hkind] at hrule
      exact follows_eat_some hmark (ih (by omega) hrule)
    | none =>
      rw [skipSemicolons_eq (not_startsWith_of_mark? hmark)] at hrule
      exact follows_eat_none hmark hrule

/-! ## Expressions -/

/-- Two ways to read the literals of some tokens whose braces hold expressions, that agree. -/
def Splices (splice : Position → List Char → Except Diagnostic (List Part))
    (splice' : Position → List Char → Except Halt (List Part)) (stream : List Token) : Prop :=
  ∀ token ∈ stream, ∀ content, token.kind = .literal .expressions content →
    splice' token.position content.toList =
      (splice token.position content.toList).mapError .problem

section

variable (splice : Position → List Char → Except Diagnostic (List Part))
  (splice' : Position → List Char → Except Halt (List Part)) (stream : List Token) (budget : Nat)

/-- The rules of expressions follow the grammar with a budget of ten for each token ahead, as fewer
than ten rules stand between two tokens, and of what a rule needs until a token is passed. -/
structure ExpressionsFollow : Prop where
  expression : ∀ constructors tokens, 10 * tokens.length + 5 ≤ budget →
    Follows stream constructors tokens (expression splice' budget)
      (Script.expression splice constructors tokens)
  binary : ∀ constructors least tokens, 10 * tokens.length + 4 ≤ budget →
    Follows stream constructors tokens (binary splice' budget least)
      (Script.binary splice constructors least tokens)
  operators : ∀ constructors least lhs tokens, 10 * tokens.length + 1 ≤ budget →
    Follows stream constructors tokens (operators splice' budget least lhs)
      (Script.operators splice constructors least lhs tokens)
  unary : ∀ constructors tokens, 10 * tokens.length + 3 ≤ budget →
    Follows stream constructors tokens (unary splice' budget)
      (Script.unary splice constructors tokens)
  postfixed : ∀ constructors tokens, 10 * tokens.length + 2 ≤ budget →
    Follows stream constructors tokens (postfixed splice' budget)
      (Script.postfixed splice constructors tokens)
  suffixes : ∀ constructors value tokens, 10 * tokens.length + 2 ≤ budget →
    Follows stream constructors tokens (suffixes splice' budget value)
      (Script.suffixes splice constructors value tokens)
  primary : ∀ constructors tokens, 10 * tokens.length + 1 ≤ budget →
    Follows stream constructors tokens (primary splice' budget)
      (Script.primary splice constructors tokens)
  list : ∀ constructors close what tokens, 10 * tokens.length + 7 ≤ budget →
    Follows stream constructors tokens (list splice' budget close what)
      (Script.expressionList splice close what tokens)
  items : ∀ close what tokens, 10 * tokens.length + 6 ≤ budget →
    Follows stream true tokens (items splice' budget close what)
      (Script.expressionList splice close what tokens)
  arguments : ∀ constructors token rest, token.isMark .leftParen = true →
    10 * (token :: rest).length + 1 ≤ budget →
    Follows stream constructors (token :: rest) (arguments splice' budget)
      (Script.argumentList splice false rest)
  argumentList : ∀ seenNamed tokens, 10 * tokens.length + 7 ≤ budget →
    Follows stream true tokens (argumentList splice' budget seenNamed)
      (Script.argumentList splice seenNamed tokens)
  argument : ∀ seenNamed tokens, 10 * tokens.length + 6 ≤ budget →
    Follows stream true tokens (argument splice' budget seenNamed)
      (Script.argument splice seenNamed tokens)
  properties : ∀ constructors token rest, token.isMark .leftBrace = true →
    10 * (token :: rest).length + 1 ≤ budget →
    Follows stream constructors (token :: rest) (properties splice' budget)
      (Script.propertyList splice rest)
  propertyList : ∀ tokens, 10 * tokens.length + 1 ≤ budget →
    Follows stream true tokens (propertyList splice' budget) (Script.propertyList splice tokens)

end

section

variable {splice : Position → List Char → Except Diagnostic (List Part)}
  {splice' : Position → List Char → Except Halt (List Part)} {stream : List Token} {budget : Nat}

namespace ExpressionsFollow

variable (h : ExpressionsFollow splice splice' stream budget)

include h

private theorem binary_succ (least : Nat) (hbudget : 10 * tokens.length + 4 ≤ budget + 1) :
    Follows stream constructors tokens (Parser.binary splice' (budget + 1) least)
      (Script.binary splice constructors least tokens) := by
  rw [Script.binary]
  refine (h.unary _ tokens (by omega)).bind fun lhs rest₁ h₁ => ?_
  exact (h.operators _ least lhs rest₁ (by omega)).pass fun _ => rfl

private theorem operators_succ (least : Nat) (lhs : Expr)
    (hbudget : 10 * tokens.length + 1 ≤ budget + 1) :
    Follows stream constructors tokens (Parser.operators splice' (budget + 1) least lhs)
      (Script.operators splice constructors least lhs tokens) := by
  cases tokens with
  | nil => exact follows_nil
  | cons token rest =>
    rw [List.length_cons] at hbudget
    rw [Script.operators]
    refine follows_peek_front ?_
    cases hop : token.binaryOp? with
    | none => exact follows_pure lhs _
    | some op =>
      dsimp only
      split
      · exact follows_pure lhs _
      · refine follows_advance (isFinish_of_binaryOp? hop) ?_
        refine (h.binary _ _ rest (by omega)).bind fun rhs rest₁ h₁ => ?_
        exact (h.operators _ least _ rest₁ (by omega)).pass fun _ => rfl

private theorem unary_succ (hbudget : 10 * tokens.length + 3 ≤ budget + 1) :
    Follows stream constructors tokens (Parser.unary splice' (budget + 1))
      (Script.unary splice constructors tokens) := by
  cases tokens with
  | nil => exact follows_nil
  | cons token rest =>
    rw [List.length_cons] at hbudget
    rw [Script.unary]
    refine follows_peek_front ?_
    cases hop : token.unaryOp? with
    | none => exact h.postfixed _ (token :: rest) (by rw [List.length_cons]; omega)
    | some op =>
      refine follows_advance (isFinish_of_unaryOp? hop) ?_
      exact (h.unary _ rest (by omega)).bind fun operand rest₁ h₁ => follows_pure _ _

private theorem postfixed_succ (hbudget : 10 * tokens.length + 2 ≤ budget + 1) :
    Follows stream constructors tokens (Parser.postfixed splice' (budget + 1))
      (Script.postfixed splice constructors tokens) := by
  rw [Script.postfixed]
  refine (h.primary _ tokens (by omega)).bind fun value rest₁ h₁ => ?_
  exact (h.suffixes _ value rest₁ (by omega)).pass fun _ => rfl

private theorem suffixes_succ (value : Expr) (hbudget : 10 * tokens.length + 2 ≤ budget + 1) :
    Follows stream constructors tokens (Parser.suffixes splice' (budget + 1) value)
      (Script.suffixes splice constructors value tokens) := by
  cases tokens with
  | nil => exact follows_nil
  | cons token rest =>
    have hlength : (token :: rest).length = rest.length + 1 := List.length_cons
    rw [Script.suffixes]
    refine follows_peek_front ?_
    split
    · rename_i hdot
      refine follows_advance (isFinish_of_isMark hdot) ?_
      refine (expectName_follows rest).bind fun name rest₁ h₁ => ?_
      exact (h.suffixes _ _ rest₁ (by omega)).pass fun _ => rfl
    split
    · rename_i hparen
      refine (h.arguments _ token rest hparen (by omega)).bind fun given rest₁ h₁ => ?_
      exact (h.suffixes _ _ rest₁ (by omega)).pass fun _ => rfl
    refine follows_mode ?_
    split
    · rename_i hbrace
      rw [Bool.and_eq_true] at hbrace
      cases value.constructorHead? with
      | none => exact follows_pure value _
      | some head =>
        refine (h.properties _ token rest hbrace.1 (by omega)).bind fun inits rest₁ h₁ => ?_
        exact (h.suffixes _ _ rest₁ (by omega)).pass fun _ => rfl
    · exact follows_pure value _

private theorem items_succ (close : Mark) (what : String)
    (hbudget : 10 * tokens.length + 6 ≤ budget + 1) :
    Follows stream true tokens (Parser.items splice' (budget + 1) close what)
      (Script.expressionList splice close what tokens) := by
  rw [Script.expressionList]
  cases hclose : mark? close tokens with
  | some reading => exact follows_eat_some hclose (follows_pure [] reading.shorter)
  | none =>
    refine follows_eat_none hclose ?_
    refine (h.expression true tokens (by omega)).bind fun item rest₁ h₁ => ?_
    dsimp only
    cases hcomma : mark? .comma rest₁ with
    | some reading =>
      have hshorter := reading.shorter
      refine follows_eat_some hcomma ?_
      exact (h.items close what reading.rest (by omega)).bind fun others rest₂ h₂ =>
        follows_pure _ _
    | none =>
      refine follows_eat_none hcomma ?_
      exact (expect_follows close what rest₁).bind fun _ rest₂ h₂ => follows_pure _ _

private theorem argumentList_succ (seenNamed : Bool)
    (hbudget : 10 * tokens.length + 7 ≤ budget + 1) :
    Follows stream true tokens (Parser.argumentList splice' (budget + 1) seenNamed)
      (Script.argumentList splice seenNamed tokens) := by
  rw [Script.argumentList]
  cases hclose : mark? .rightParen tokens with
  | some reading => exact follows_eat_some hclose (follows_pure [] reading.shorter)
  | none =>
    refine follows_eat_none hclose ?_
    refine (h.argument seenNamed tokens (by omega)).bind fun first rest₁ h₁ => ?_
    dsimp only
    cases hcomma : mark? .comma rest₁ with
    | some reading =>
      have hshorter := reading.shorter
      refine follows_eat_some hcomma ?_
      exact (h.argumentList _ reading.rest (by omega)).bind fun others rest₂ h₂ =>
        follows_pure _ _
    | none =>
      refine follows_eat_none hcomma ?_
      exact (expect_follows _ _ rest₁).bind fun _ rest₂ h₂ => follows_pure _ _

private theorem propertyList_succ (hbudget : 10 * tokens.length + 1 ≤ budget + 1) :
    Follows stream true tokens (Parser.propertyList splice' (budget + 1))
      (Script.propertyList splice tokens) := by
  rw [Script.propertyList]
  cases hclose : mark? .rightBrace tokens with
  | some reading => exact follows_eat_some hclose (follows_pure [] reading.shorter)
  | none =>
    refine follows_eat_none hclose ?_
    refine (expectPropertyName_follows tokens).bind fun name rest₁ h₁ => ?_
    refine (expect_follows _ _ rest₁).bind fun _ rest₂ h₂ => ?_
    refine (h.expression true rest₂ (by omega)).bind fun value rest₃ h₃ => ?_
    dsimp only
    cases hcomma : mark? .comma rest₃ with
    | some reading =>
      have hshorter := reading.shorter
      refine follows_eat_some hcomma ?_
      exact (h.propertyList reading.rest (by omega)).bind fun others rest₄ h₄ => follows_pure _ _
    | none =>
      refine follows_eat_none hcomma ?_
      exact (expect_follows _ _ rest₃).bind fun _ rest₄ h₄ => follows_pure _ _

private theorem argument_succ (seenNamed : Bool) (hbudget : 10 * tokens.length + 6 ≤ budget + 1) :
    Follows stream true tokens (Parser.argument splice' (budget + 1) seenNamed)
      (Script.argument splice seenNamed tokens) := by
  unfold Script.argument
  split
  · rename_i name text position text' position' rest
    simp only [List.length_cons] at hbudget
    refine follows_peek_front (follows_peek_next ?_)
    refine follows_advance rfl (follows_advance rfl ?_)
    exact (h.expression true rest (by omega)).bind fun value rest₁ h₁ => follows_pure _ _
  · rename_i hpair
    refine follows_peek (follows_peek_second fun seen hseen => ?_)
    split
    · rename_i name hname hcolon
      obtain ⟨text, position, rest, rfl⟩ := hseen name hname
      obtain ⟨kind, text', position'⟩ := seen
      obtain rfl : kind = .mark .colon := isMark_iff.mp hcolon
      exact absurd rfl (hpair _ _ _ _ _ _)
    split
    · exact follows_throw _
    · exact (h.expression true tokens (by omega)).bind fun value rest₁ h₁ => follows_pure _ _

private theorem primary_succ (hsplice : Splices splice splice' stream)
    (hbudget : 10 * tokens.length + 1 ≤ budget + 1) :
    Follows stream constructors tokens (Parser.primary splice' (budget + 1))
      (Script.primary splice constructors tokens) := by
  cases tokens with
  | nil => exact follows_nil
  | cons token rest =>
    have hlength : (token :: rest).length = rest.length + 1 := List.length_cons
    obtain ⟨kind, text, position⟩ := token
    rw [Script.primary]
    refine follows_peek_front ?_
    cases kind with
    | number value => exact follows_advance rfl (follows_pure _ _)
    | literal style content =>
      cases style with
      | verbatim => exact follows_advance rfl (follows_pure _ _)
      | names => exact follows_advance rfl (follows_pure _ _)
      | expressions =>
        -- Only that the token is one of the stream tells that its literal is read alike.
        intro p hp
        have hparts := hsplice _ (hp.subset (.head _)) content rfl
        refine follows_advance rfl ?_ p hp
        dsimp only at hparts ⊢
        rw [hparts]
        cases splice position content.toList with
        | error d => exact follows_throw d
        | ok parts => exact follows_pure _ _
    | name name =>
      refine follows_advance rfl ?_
      dsimp only
      split
      · exact follows_pure _ _
      · refine follows_check (follows_mode ?_)
        by_cases hadd : (name == "Add" && constructors) = true
        · rw [if_pos hadd]
          rw [Bool.and_eq_true] at hadd
          cases hbrace : mark? .leftBrace rest with
          | some reading =>
            have hshorter := reading.shorter
            rw [isMark_front_eq_true hbrace, hadd.1, hadd.2]
            refine follows_advance_some hbrace ?_
            exact (h.list _ _ _ reading.rest (by omega)).bind fun items rest₁ h₁ =>
              follows_pure _ _
          | none =>
            rw [isMark_front_eq_false hbrace, Bool.and_false, Bool.false_and]
            exact follows_pure _ _
        · rw [if_neg hadd]
          rw [Bool.and_eq_true, not_and] at hadd
          rw [if_neg]
          · exact follows_pure _ _
          · rw [Bool.and_eq_true, Bool.and_eq_true]
            exact fun hopens => hadd hopens.1.1 hopens.2
    | mark mark =>
      cases mark with
      | leftBracket =>
        refine follows_advance rfl ?_
        exact (h.list _ _ _ rest (by omega)).bind fun items rest₁ h₁ => follows_pure _ _
      | leftParen =>
        refine follows_advance rfl ?_
        refine (h.expression true rest (by omega)).inMode.bind fun value rest₁ h₁ => ?_
        exact (expect_follows _ _ rest₁).bind fun _ rest₂ h₂ => follows_pure value _
      | _ => exact follows_throw _
    | _ => exact follows_throw _

end ExpressionsFollow

private theorem expressions_follow (hsplice : Splices splice splice' stream) :
    (budget : Nat) → ExpressionsFollow splice splice' stream budget
  | 0 => by constructor <;> intros <;> omega
  | budget + 1 =>
    have h := expressions_follow hsplice budget
    { expression := fun constructors tokens hbudget => by
        rw [Script.expression]
        exact h.binary constructors 1 tokens (by omega)
      binary := fun _ least _ => h.binary_succ least
      operators := fun _ least lhs _ => h.operators_succ least lhs
      unary := fun _ _ => h.unary_succ
      postfixed := fun _ _ => h.postfixed_succ
      suffixes := fun _ value _ => h.suffixes_succ value
      primary := fun _ _ => h.primary_succ hsplice
      list := fun _ close what tokens hbudget => (h.items close what tokens (by omega)).inMode
      items := fun close what _ => h.items_succ close what
      arguments := fun _ token rest hparen hbudget => by
        rw [List.length_cons] at hbudget
        exact follows_expect_front hparen (h.argumentList false rest (by omega)).inMode
      argumentList := fun seenNamed _ => h.argumentList_succ seenNamed
      argument := fun seenNamed _ => h.argument_succ seenNamed
      properties := fun _ token rest hbrace hbudget => by
        rw [List.length_cons] at hbudget
        exact follows_expect_front hbrace (h.propertyList rest (by omega)).inMode
      propertyList := fun _ => h.propertyList_succ }

/-- An expression is read as the grammar reads it, in any mode. -/
theorem expression_follows (hsplice : Splices splice splice' stream) (constructors : Bool)
    {tokens : List Token} (hbudget : 10 * tokens.length + 5 ≤ budget) :
    Follows stream constructors tokens (expression splice' budget)
      (Script.expression splice constructors tokens) :=
  (expressions_follow hsplice budget).expression constructors tokens hbudget

/-! ## Statements -/

private theorem statement_succ (hsplice : Splices splice splice' stream)
    (hblock : ∀ tokens, 10 * tokens.length + 1 ≤ budget →
      Follows stream true tokens (block splice' budget) (Script.block splice tokens))
    (hbudget : 10 * tokens.length + 6 ≤ budget + 1) :
    Follows stream true tokens (statement splice' (budget + 1))
      (Script.statement splice tokens) := by
  have hvalue (constructors : Bool) {tokens : List Token} (h : 10 * tokens.length + 5 ≤ budget) :=
    expression_follows hsplice constructors h
  unfold Script.statement
  split
  · rename_i text position name text' position' rest
    simp only [List.length_cons] at hbudget
    refine follows_peek_front (follows_peek_next ?_)
    refine follows_advance rfl (follows_expectName_front ?_)
    refine (expect_follows _ _ rest).bind fun _ rest₁ h₁ => ?_
    refine Follows.parameters_bind (by omega) fun names rest₂ h₂ => ?_
    exact (hblock rest₂ (by omega)).bind fun body rest₃ h₃ => follows_pure _ _
  · rename_i text position rest
    simp only [List.length_cons] at hbudget
    refine follows_peek_front (follows_peek_any fun second => ?_)
    refine follows_advance rfl ?_
    refine (hvalue false (by omega)).inMode.bind fun count rest₁ h₁ => ?_
    exact (hblock rest₁ (by omega)).bind fun body rest₂ h₂ => follows_pure _ _
  · rename_i text position rest
    simp only [List.length_cons] at hbudget
    refine follows_peek_front (follows_peek_any fun second => ?_)
    refine follows_advance rfl ?_
    exact (hvalue true (by omega)).bind fun seconds rest₁ h₁ => follows_pure _ _
  · rename_i text position rest
    simp only [List.length_cons] at hbudget
    refine follows_peek_front (follows_peek_any fun second => ?_)
    refine follows_advance rfl (follows_peek ?_)
    unfold returnsValue
    dsimp only
    split
    · exact (hvalue true (by omega)).bind fun value rest₁ h₁ => follows_pure _ _
    · exact follows_pure _ _
  · rename_i hfunc hrepeat hwait hreturn
    -- None of the words that tell a statement is in front, so the parser sees none either.
    refine follows_peek (follows_peek_second fun seen hseen => ?_)
    split
    · rename_i name hword hname
      obtain ⟨text, position, rest, rfl⟩ := hseen _ hword
      obtain ⟨kind, text', position'⟩ := seen
      obtain rfl : kind = .name name := hname
      exact absurd rfl (hfunc _ _ _ _ _ _)
    · rename_i hword
      obtain ⟨text, position, rest, rfl⟩ := hseen _ hword
      exact absurd rfl (hrepeat _ _ _)
    · rename_i hword
      obtain ⟨text, position, rest, rfl⟩ := hseen _ hword
      exact absurd rfl (hwait _ _ _)
    · rename_i hword
      obtain ⟨text, position, rest, rfl⟩ := hseen _ hword
      exact absurd rfl (hreturn _ _ _)
    refine (hvalue true (by omega)).bind fun target rest₁ h₁ => follows_check ?_
    dsimp only
    cases hassign : mark? .assign rest₁ with
    | some reading =>
      have hshorter := reading.shorter
      rw [if_pos (isMark_front_eq_true hassign)]
      split
      · refine follows_advance_some hassign ?_
        exact (hvalue true (by omega)).bind fun value rest₂ h₂ => follows_pure _ _
      · exact follows_throw _
    | none =>
      rw [isMark_front_eq_false hassign]
      exact follows_pure _ _

private theorem blockBody_succ
    (hstatement : ∀ tokens, 10 * tokens.length + 6 ≤ budget →
      Follows stream true tokens (statement splice' budget) (Script.statement splice tokens))
    (hbody : ∀ tokens, 10 * tokens.length + 7 ≤ budget →
      Follows stream true tokens (blockBody splice' budget) (Script.blockBody splice tokens))
    (hbudget : 10 * tokens.length + 7 ≤ budget + 1) :
    Follows stream true tokens (blockBody splice' (budget + 1))
      (Script.blockBody splice tokens) := by
  have hle := length_skipSemicolons_le tokens
  rw [Script.blockBody]
  refine skipSemicolons_follows (by omega) ?_
  dsimp only
  cases hclose : mark? .rightBrace (Script.skipSemicolons tokens) with
  | some reading => exact follows_eat_some hclose (follows_pure [] _)
  | none =>
    refine follows_eat_none hclose (follows_peek ?_)
    dsimp only
    split
    · exact follows_throw _
    · refine (hstatement (Script.skipSemicolons tokens) (by omega)).bind fun first rest₁ h₁ => ?_
      exact (hbody rest₁ (by omega)).bind fun others rest₂ h₂ => follows_pure _ _

private theorem statements_follow (hsplice : Splices splice splice' stream) : (budget : Nat) →
    (∀ tokens, 10 * tokens.length + 6 ≤ budget →
      Follows stream true tokens (statement splice' budget) (Script.statement splice tokens)) ∧
    (∀ tokens, 10 * tokens.length + 1 ≤ budget →
      Follows stream true tokens (block splice' budget) (Script.block splice tokens)) ∧
    ∀ tokens, 10 * tokens.length + 7 ≤ budget →
      Follows stream true tokens (blockBody splice' budget) (Script.blockBody splice tokens)
  | 0 => ⟨by omega, by omega, by omega⟩
  | budget + 1 => by
    obtain ⟨hstatement, hblock, hbody⟩ := statements_follow hsplice budget
    refine ⟨fun tokens => statement_succ hsplice hblock, fun tokens hbudget => ?_,
      fun tokens => blockBody_succ hstatement hbody⟩
    rw [Script.block]
    refine (expect_follows _ _ tokens).bind fun _ rest₁ h₁ => ?_
    exact (hbody rest₁ (by omega)).inMode.pass fun _ => rfl

/-- A statement is read as the grammar reads it, in the mode in which scripts begin. -/
theorem statement_follows (hsplice : Splices splice splice' stream)
    (hbudget : 10 * tokens.length + 6 ≤ budget) :
    Follows stream true tokens (statement splice' budget) (Script.statement splice tokens) :=
  (statements_follow hsplice budget).1 tokens hbudget

end

end Animatic.Script.Parser
