import Animatic.Proofs.Script.Parser

/-!
# A parser gets on

What a rule reads takes at least one token, never the last one, and leaves the mode as it was; so no
two statements that are tried overlap, and none takes nothing.

* `Passes`: a parser has moved on by some tokens, in the mode that it was in.
* `Advances`: a rule passes some tokens whenever it reads something.
* `rules_advance`: the rules of the parser do so, whatever the budget.
* `visits_ordered`: the statements that are tried stand one behind the other.
-/

namespace Animatic.Script.Parser

variable {α β : Type} {p q r : Parser} {steps more : Nat}

/-! ## Moves -/

/-- A parser looks at one of its tokens, and the last of them is the end of the text. -/
structure Standing (p : Parser) : Prop where
  bound : p.place < p.tokens.length
  ended : ∃ finish, p.tokens.getLast? = some finish ∧ finish.isFinish = true

/-- The second parser is the first one at least `steps` tokens further, but not behind the last. -/
structure Passes (steps : Nat) (p q : Parser) : Prop where
  tokens : q.tokens = p.tokens
  constructors : q.constructors = p.constructors
  place : p.place + steps ≤ q.place
  bound : q.place < q.tokens.length

theorem Standing.passes (hp : p.Standing) : Passes 0 p p := ⟨rfl, rfl, Nat.le_refl _, hp.bound⟩

theorem Passes.standing (h : Passes steps p q) (hp : p.Standing) : q.Standing :=
  ⟨h.bound, h.tokens ▸ hp.ended⟩

theorem Passes.trans (h : Passes steps p q) (h' : Passes more q r) : Passes (steps + more) p r where
  tokens := h'.tokens.trans h.tokens
  constructors := h'.constructors.trans h.constructors
  place := by have := h.place; have := h'.place; omega
  bound := h'.bound

theorem Passes.weaken (h : Passes steps p q) (hle : more ≤ steps) : Passes more p q :=
  { h with place := by have := h.place; omega }

/-- A new parser looks at its first token. -/
theorem new_standing (tokens : List Token) : (new tokens).Standing := by
  rw [new, Reader.ofTokens]
  cases hlast : tokens.getLast? with
  | none => exact ⟨Nat.zero_lt_one, .atEnd .start, rfl, rfl⟩
  | some last =>
    dsimp only
    split
    · rename_i hfinish
      have hne : tokens ≠ [] := by
        rintro rfl
        cases hlast
      exact ⟨List.length_pos_iff.mpr hne, last, hlast, hfinish⟩
    · exact ⟨by simp, .atEnd last.position, List.getLast?_concat, rfl⟩

/-- A token that does not end the text is passed. -/
theorem Standing.advanced (hp : p.Standing) (htoken : (p.peekAt 0).isFinish = false) :
    Passes 1 p p.advanced := by
  have hadvanced : p.advanced = { p with place := p.place + 1 } := by
    rw [Parser.advanced, htoken]
    rfl
  rw [hadvanced]
  refine ⟨rfl, rfl, Nat.le_refl _, Nat.lt_of_not_le fun hle => ?_⟩
  obtain ⟨finish, hlast, hfinish⟩ := hp.ended
  -- The place would be that of the last token, the end of the text.
  have hplace : min (p.place + 0) (p.tokens.length - 1) = p.tokens.length - 1 := by
    have hbound := hp.bound
    dsimp only at hle
    omega
  rw [peekAt, hplace, List.getD_eq_getElem?_getD, ← List.getLast?_eq_getElem?, hlast] at htoken
  rw [Option.getD_some, hfinish] at htoken
  cases htoken

private theorem isFinish_of_ne {token : Token} (h : token.kind ≠ .finish) :
    token.isFinish = false := by
  obtain ⟨kind, text, position⟩ := token
  cases kind with
  | finish => exact absurd rfl h
  | _ => rfl

theorem isFinish_of_isMark {mark : Mark} {token : Token} (h : token.isMark mark = true) :
    token.isFinish = false :=
  isFinish_of_ne fun hfinish => by
    rw [Token.isMark, hfinish] at h
    cases h

theorem isFinish_of_binaryOp? {op : BinaryOp} {token : Token} (h : token.binaryOp? = some op) :
    token.isFinish = false :=
  isFinish_of_ne fun hfinish => by
    rw [Token.binaryOp?, hfinish] at h
    cases h

theorem isFinish_of_unaryOp? {op : UnaryOp} {token : Token} (h : token.unaryOp? = some op) :
    token.isFinish = false :=
  isFinish_of_ne fun hfinish => by
    rw [Token.unaryOp?, hfinish] at h
    cases h

/-- A mark that is in front is taken, and nothing else. -/
theorem eat_run (mark : Mark) (p : Parser) :
    (eat mark).run p =
      if (p.peekAt 0).isMark mark = true then .ok true p.advanced else .ok false p := by
  change EStateM.run (if (p.peekAt 0).isMark mark = true then _ else _) p = _
  split <;> rfl

theorem withMode_run (constructors : Bool) (rule : Parsing α) (p : Parser) :
    (withMode constructors rule).run p =
      match rule.run { p with constructors } with
      | .ok value q => .ok value { q with constructors := p.constructors }
      | .error halt q => .error halt { q with constructors := p.constructors } := rfl

/-! ## Rules that advance -/

/-- A rule passes at least `steps` tokens if it reads something from `p` on. -/
def Gains (steps : Nat) (p : Parser) (rule : Parsing α) : Prop :=
  ∀ value q, rule.run p = .ok value q → Passes steps p q

/-- A rule passes at least `steps` tokens whenever it reads something. -/
def Advances (steps : Nat) (rule : Parsing α) : Prop := ∀ p, p.Standing → Gains steps p rule

section

variable {rule : Parsing α} {next : α → Parsing β}

theorem Gains.weaken (h : Gains steps p rule) (hle : more ≤ steps) : Gains more p rule :=
  fun value q hread => (h value q hread).weaken hle

/-- What a rule passes that goes on where another one has come to. -/
theorem Gains.bind (h : Gains steps p rule)
    (hnext : ∀ value q, rule.run p = .ok value q → Gains more q (next value)) :
    Gains (steps + more) p (rule >>= next) := by
  intro value r hread
  rw [EStateM.run_bind] at hread
  split at hread
  · rename_i first q hrule
    exact (h first q hrule).trans (hnext first q hrule value r hread)
  · cases hread

theorem advances_pure (value : α) : Advances 0 (pure value : Parsing α) := by
  intro p hp _ q hread
  obtain ⟨-, rfl⟩ := EStateM.Result.ok.inj hread
  exact hp.passes

theorem advances_throw (halt : Halt) : Advances steps (throw halt : Parsing α) := fun _ _ => nofun

theorem Advances.weaken (h : Advances steps rule) (hle : more ≤ steps) : Advances more rule :=
  fun p hp => (h p hp).weaken hle

private theorem Advances.bind (h : Advances steps rule)
    (hnext : ∀ value, Advances more (next value)) : Advances (steps + more) (rule >>= next) :=
  fun p hp => (h p hp).bind fun value q hread => hnext value q ((h p hp value q hread).standing hp)

theorem Advances.zero (h : Advances 1 rule) : Advances 0 rule := h.weaken (Nat.zero_le 1)

/-- A token that is passed first has been passed, whatever is read behind it. -/
theorem Advances.first (h : Advances 1 rule) (hnext : ∀ value, Advances 0 (next value)) :
    Advances 1 (rule >>= next) := h.bind hnext

/-- A token that is passed last has been passed, whatever is read in front of it. -/
theorem Advances.last (h : Advances 0 rule) (hnext : ∀ value, Advances steps (next value)) :
    Advances steps (rule >>= next) := (h.bind hnext).weaken (Nat.le_add_left _ _)

end

/-! ## Tokens that are passed -/

section

variable {mark : Mark} {rule yes no : Parsing α} {next : Token → Parsing α} {offset : Nat}

theorem gains_peek (h : Gains steps p (next (p.peekAt offset))) :
    Gains steps p (peek offset >>= next) := h

theorem advances_peek (h : ∀ p, p.Standing → Gains steps p (next (p.peekAt offset))) :
    Advances steps (peek offset >>= next) := h

theorem advances_mode {next : Bool → Parsing α}
    (h : ∀ constructors, Advances steps (next constructors)) : Advances steps (mode >>= next) :=
  fun p => h p.constructors p

theorem advances_check (hyes : Advances steps yes) (hno : Advances steps no) :
    Advances steps (check mark >>= fun found => if found = true then yes else no) := by
  intro p hp
  change Gains steps p (if (p.peekAt 0).isMark mark = true then yes else no)
  split
  · exact hyes p hp
  · exact hno p hp

/-- A token that does not end the text is passed. -/
theorem Standing.gains_advance (hp : p.Standing) (htoken : (p.peekAt 0).isFinish = false)
    (h : Advances 0 rule) : Gains 1 p (advance >>= fun _ => rule) := by
  have hpasses := hp.advanced htoken
  intro value q hread
  exact hpasses.trans (h p.advanced (hpasses.standing hp) value q hread)

theorem advance_advances : Advances 0 advance := by
  intro p hp _ q hread
  obtain ⟨-, rfl⟩ := EStateM.Result.ok.inj hread
  cases htoken : (p.peekAt 0).isFinish with
  | true =>
    rw [Parser.advanced, htoken]
    exact hp.passes
  | false => exact (hp.advanced htoken).weaken (Nat.zero_le 1)

theorem advances_eat (hyes : Advances 0 yes) (hno : Advances steps no) (hle : steps ≤ 1) :
    Advances steps (eat mark >>= fun taken => if taken = true then yes else no) := by
  intro p hp value q hread
  rw [EStateM.run_bind, eat_run] at hread
  by_cases hmark : (p.peekAt 0).isMark mark = true
  · rw [if_pos hmark] at hread
    have hpassed := hp.gains_advance (isFinish_of_isMark hmark) hyes
    exact (hpassed value q hread).weaken hle
  · rw [if_neg hmark] at hread
    exact hno p hp value q hread

end

theorem refuse_advances (what : String) : Advances steps (refuse what : Parsing α) :=
  advances_peek fun p hp => advances_throw _ p hp

theorem expect_advances (mark : Mark) (what : String) : Advances 1 (expect mark what) :=
  advances_eat (advances_pure ()) (refuse_advances what) (Nat.le_refl 1)

theorem expectName_advances : Advances 1 expectName := by
  refine advances_peek fun p hp => ?_
  generalize htoken : p.peekAt 0 = token
  obtain ⟨kind, text, position⟩ := token
  cases kind with
  | name name => exact hp.gains_advance (by rw [htoken]; rfl) (advances_pure name)
  | _ => exact refuse_advances _ p hp

theorem expectPropertyName_advances : Advances 1 expectPropertyName := by
  refine advances_peek fun p hp => ?_
  generalize htoken : p.peekAt 0 = token
  obtain ⟨kind, text, position⟩ := token
  cases kind with
  | name name => exact hp.gains_advance (by rw [htoken]; rfl) (advances_pure name)
  | literal style name =>
    cases style with
    | verbatim => exact hp.gains_advance (by rw [htoken]; rfl) (advances_pure name)
    | _ => exact refuse_advances _ p hp
  | _ => exact refuse_advances _ p hp

/-- Whatever mode a rule is followed in, the parser goes back to its own. -/
theorem withMode_advances {rule : Parsing α} (constructors : Bool) (h : Advances steps rule) :
    Advances steps (withMode constructors rule) := by
  intro p hp value q hread
  have hinner := h { p with constructors } ⟨hp.bound, hp.ended⟩
  rw [withMode_run] at hread
  split at hread
  · rename_i inner r hrule
    obtain ⟨-, rfl⟩ := EStateM.Result.ok.inj hread
    have hpasses := hinner inner r hrule
    exact ⟨hpasses.tokens, rfl, hpasses.place, hpasses.bound⟩
  · cases hread

theorem ofExcept_advances (read : Except Halt α) : Advances 0 (ofExcept read : Parsing α) := by
  cases read with
  | ok value => exact advances_pure value
  | error halt => exact advances_throw halt

theorem skipSemicolons_advances : (budget : Nat) → Advances 0 (skipSemicolons budget)
  | 0 => advances_throw _
  | budget + 1 =>
    advances_eat (skipSemicolons_advances budget) (advances_pure ()) (Nat.zero_le 1)

theorem parameters_advances : (budget : Nat) → Advances 0 (parameters budget)
  | 0 => advances_throw _
  | budget + 1 => by
    have hmore : Advances 0 (parameters budget) := parameters_advances budget
    refine advances_check (advances_pure []) ?_
    refine expectName_advances.zero.last fun name => ?_
    refine advances_eat ?_ (advances_pure [name]) (Nat.zero_le 1)
    exact hmore.last fun names => advances_pure (name :: names)

/-! ## Expressions -/

section

variable (splice : Position → List Char → Except Halt (List Part)) (budget : Nat)

/-- The rules of expressions advance with a budget: those behind an operand may take nothing. -/
structure ExpressionsAdvance : Prop where
  expression : Advances 1 (expression splice budget)
  binary : ∀ least, Advances 1 (binary splice budget least)
  operators : ∀ least lhs, Advances 0 (operators splice budget least lhs)
  unary : Advances 1 (unary splice budget)
  postfixed : Advances 1 (postfixed splice budget)
  suffixes : ∀ value, Advances 0 (suffixes splice budget value)
  primary : Advances 1 (primary splice budget)
  list : ∀ close what, Advances 1 (list splice budget close what)
  items : ∀ close what, Advances 1 (items splice budget close what)
  arguments : Advances 1 (arguments splice budget)
  argumentList : ∀ seenNamed, Advances 1 (argumentList splice budget seenNamed)
  argument : ∀ seenNamed, Advances 1 (argument splice budget seenNamed)
  properties : Advances 1 (properties splice budget)
  propertyList : Advances 1 (propertyList splice budget)

end

section

variable {splice : Position → List Char → Except Halt (List Part)} {budget : Nat}

namespace ExpressionsAdvance

variable (h : ExpressionsAdvance splice budget)

include h

private theorem binary_succ (least : Nat) : Advances 1 (Parser.binary splice (budget + 1) least) :=
  h.unary.first fun lhs => h.operators least lhs

private theorem operators_succ (least : Nat) (lhs : Expr) :
    Advances 0 (Parser.operators splice (budget + 1) least lhs) := by
  refine advances_peek fun p hp => ?_
  generalize htoken : p.peekAt 0 = token
  cases hop : token.binaryOp? with
  | none => exact advances_pure lhs p hp
  | some op =>
    dsimp only
    split
    · exact advances_pure lhs p hp
    · have hrest : Advances 0 (do
          let rhs ← Parser.binary splice budget (op.precedence + 1)
          Parser.operators splice budget least (.binary token.position op lhs rhs)) :=
        (h.binary _).zero.last fun rhs => h.operators least _
      have hpassed : (p.peekAt 0).isFinish = false := htoken ▸ isFinish_of_binaryOp? hop
      exact (hp.gains_advance hpassed hrest).weaken (Nat.zero_le 1)

private theorem unary_succ : Advances 1 (Parser.unary splice (budget + 1)) := by
  refine advances_peek fun p hp => ?_
  generalize htoken : p.peekAt 0 = token
  cases hop : token.unaryOp? with
  | none => exact h.postfixed p hp
  | some op =>
    have hpassed : (p.peekAt 0).isFinish = false := htoken ▸ isFinish_of_unaryOp? hop
    exact hp.gains_advance hpassed (h.unary.zero.last fun _ => advances_pure _)

private theorem suffixes_succ (value : Expr) :
    Advances 0 (Parser.suffixes splice (budget + 1) value) := by
  refine advances_peek fun p hp => ?_
  split
  · rename_i hdot
    refine (hp.gains_advance (isFinish_of_isMark hdot) ?_).weaken (Nat.zero_le 1)
    exact expectName_advances.zero.last fun name => h.suffixes _
  split
  · exact h.arguments.zero.last (fun given => h.suffixes _) p hp
  refine advances_mode (fun constructors => ?_) p hp
  split
  · cases value.constructorHead? with
    | none => exact advances_pure value
    | some head => exact h.properties.zero.last fun inits => h.suffixes _
  · exact advances_pure value

private theorem primary_succ : Advances 1 (Parser.primary splice (budget + 1)) := by
  refine advances_peek fun p hp => ?_
  generalize htoken : p.peekAt 0 = token
  obtain ⟨kind, text, position⟩ := token
  cases kind with
  | number value => exact hp.gains_advance (by rw [htoken]; rfl) (advances_pure _)
  | literal style content =>
    have hpassed : (p.peekAt 0).isFinish = false := by rw [htoken]; rfl
    cases style with
    | verbatim => exact hp.gains_advance hpassed (advances_pure _)
    | names => exact hp.gains_advance hpassed (advances_pure _)
    | expressions =>
      exact hp.gains_advance hpassed ((ofExcept_advances _).last fun parts => advances_pure _)
  | mark mark =>
    have hpassed : (p.peekAt 0).isFinish = false := by rw [htoken]; rfl
    cases mark with
    | leftBracket =>
      refine hp.gains_advance hpassed ?_
      exact (h.list _ _).zero.last fun items => advances_pure _
    | leftParen =>
      refine hp.gains_advance hpassed ?_
      refine (withMode_advances true h.expression).zero.last fun value => ?_
      exact (expect_advances _ _).zero.last fun _ => advances_pure value
    | _ => exact advances_throw _ p hp
  | name name =>
    refine hp.gains_advance (by rw [htoken]; rfl) ?_
    split
    · exact advances_pure _
    intro q hq
    change Gains 0 q (if (name == "Add" && (q.peekAt 0).isMark .leftBrace && q.constructors) = true
      then _ else _)
    split
    · rename_i hopens
      rw [Bool.and_eq_true, Bool.and_eq_true] at hopens
      refine (hq.gains_advance (isFinish_of_isMark hopens.1.2) ?_).weaken (Nat.zero_le 1)
      exact (h.list _ _).zero.last fun items => advances_pure _
    · exact advances_pure _ q hq
  | _ => exact advances_throw _ p hp

private theorem items_succ (close : Mark) (what : String) :
    Advances 1 (Parser.items splice (budget + 1) close what) := by
  refine advances_eat (advances_pure []) ?_ (Nat.le_refl 1)
  refine h.expression.first fun item => ?_
  refine advances_eat ?_ ?_ (Nat.zero_le 1)
  · exact (h.items close what).zero.last fun others => advances_pure _
  · exact (expect_advances close what).zero.last fun _ => advances_pure _

private theorem argumentList_succ (seenNamed : Bool) :
    Advances 1 (Parser.argumentList splice (budget + 1) seenNamed) := by
  refine advances_eat (advances_pure []) ?_ (Nat.le_refl 1)
  refine (h.argument seenNamed).first fun first => ?_
  refine advances_eat ?_ ?_ (Nat.zero_le 1)
  · exact (h.argumentList _).zero.last fun others => advances_pure _
  · exact (expect_advances _ _).zero.last fun _ => advances_pure _

private theorem argument_succ (seenNamed : Bool) :
    Advances 1 (Parser.argument splice (budget + 1) seenNamed) := by
  refine advances_peek fun p hp => gains_peek ?_
  generalize htoken : p.peekAt 0 = token
  obtain ⟨kind, text, position⟩ := token
  dsimp only
  split
  · refine hp.gains_advance (by rw [htoken]; rfl) ?_
    refine advance_advances.last fun _ => ?_
    exact h.expression.zero.last fun value => advances_pure _
  · split
    · exact advances_throw _ p hp
    · exact h.expression.first (fun value => advances_pure _) p hp

private theorem propertyList_succ : Advances 1 (Parser.propertyList splice (budget + 1)) := by
  refine advances_eat (advances_pure []) ?_ (Nat.le_refl 1)
  refine expectPropertyName_advances.first fun name => ?_
  refine (expect_advances _ _).zero.last fun _ => ?_
  refine h.expression.zero.last fun value => ?_
  refine advances_eat ?_ ?_ (Nat.zero_le 1)
  · exact h.propertyList.zero.last fun others => advances_pure _
  · exact (expect_advances _ _).zero.last fun _ => advances_pure _

end ExpressionsAdvance

end

section

variable (splice : Position → List Char → Except Halt (List Part))

private theorem expressions_advance : (budget : Nat) → ExpressionsAdvance splice budget
  | 0 => by constructor <;> intros <;> exact advances_throw _
  | budget + 1 =>
    have h := expressions_advance budget
    { expression := h.binary 1
      binary := h.binary_succ
      operators := h.operators_succ
      unary := h.unary_succ
      postfixed := h.primary.first h.suffixes
      suffixes := h.suffixes_succ
      primary := h.primary_succ
      list := fun close what => withMode_advances true (h.items close what)
      items := h.items_succ
      arguments := (expect_advances _ _).first fun _ =>
        (withMode_advances true (h.argumentList false)).zero
      argumentList := h.argumentList_succ
      argument := h.argument_succ
      properties := (expect_advances _ _).first fun _ =>
        (withMode_advances true h.propertyList).zero
      propertyList := h.propertyList_succ }

end

/-! ## Statements -/

/-- All rules advance with a budget. -/
structure RulesAdvance (splice : Position → List Char → Except Halt (List Part)) (budget : Nat) :
    Prop extends ExpressionsAdvance splice budget where
  statement : Advances 1 (statement splice budget)
  block : Advances 1 (block splice budget)
  blockBody : Advances 1 (blockBody splice budget)

section

variable {splice : Position → List Char → Except Halt (List Part)} {budget : Nat}

namespace RulesAdvance

variable (h : RulesAdvance splice budget)

include h

private theorem statement_succ : Advances 1 (Parser.statement splice (budget + 1)) := by
  have hvalue {make : Expr → Stmt} :
      Advances 1 (do let value ← Parser.expression splice budget; return make value) :=
    h.expression.first fun value => advances_pure _
  refine advances_peek fun p hp => gains_peek ?_
  generalize htoken : p.peekAt 0 = token
  obtain ⟨kind, text, position⟩ := token
  dsimp only
  split
  · refine hp.gains_advance (by rw [htoken]; rfl) ?_
    refine expectName_advances.zero.last fun name => ?_
    refine (expect_advances _ _).zero.last fun _ => ?_
    refine (parameters_advances budget).last fun names => ?_
    refine (expect_advances _ _).zero.last fun _ => ?_
    exact h.block.zero.last fun body => advances_pure _
  · refine hp.gains_advance (by rw [htoken]; rfl) ?_
    refine (withMode_advances false h.expression).zero.last fun count => ?_
    exact h.block.zero.last fun body => advances_pure _
  · exact hp.gains_advance (by rw [htoken]; rfl) hvalue.zero
  · refine hp.gains_advance (by rw [htoken]; rfl) ?_
    refine advances_peek fun q hq => ?_
    split
    · exact hvalue.zero q hq
    · exact advances_pure _ q hq
  · refine h.expression.first (fun target => ?_) p hp
    intro q hq
    change Gains 0 q (if (q.peekAt 0).isMark .assign = true then _ else _)
    split
    · rename_i hassign
      split
      · exact (hq.gains_advance (isFinish_of_isMark hassign) hvalue.zero).weaken (Nat.zero_le 1)
      · exact advances_throw _ q hq
    · exact advances_pure _ q hq

private theorem blockBody_succ : Advances 1 (Parser.blockBody splice (budget + 1)) := by
  refine (skipSemicolons_advances budget).last fun _ => ?_
  refine advances_eat (advances_pure []) ?_ (Nat.le_refl 1)
  refine advances_peek fun p hp => ?_
  split
  · exact advances_throw _ p hp
  · refine h.statement.first (fun first => ?_) p hp
    exact h.blockBody.zero.last fun others => advances_pure _

end RulesAdvance

end

/-- What a rule reads takes a token, or at least none back, whatever the budget. -/
theorem rules_advance (splice : Position → List Char → Except Halt (List Part)) :
    (budget : Nat) → RulesAdvance splice budget
  | 0 =>
    { expressions_advance splice 0 with
      statement := advances_throw _
      block := advances_throw _
      blockBody := advances_throw _ }
  | budget + 1 =>
    have h := rules_advance splice budget
    { expressions_advance splice (budget + 1) with
      statement := h.statement_succ
      block := (expect_advances _ _).first fun _ => (withMode_advances true h.blockBody).zero
      blockBody := h.blockBody_succ }

/-! ## Statements one behind the other -/

/-- Statements that are tried from `p` on: those that are read take some tokens, though not the last
one, and each is tried behind what the one in front of it takes. -/
structure InOrder (p : Parser) (tried : List Visit) : Prop where
  within : ∀ visit ∈ tried, p.place ≤ visit.start ∧ visit.start < p.tokens.length
  moved : ∀ visit ∈ tried, ∀ stmt, visit.statement? = some stmt →
    visit.start < visit.stop ∧ visit.stop < p.tokens.length
  apart : tried.Pairwise fun earlier later =>
    earlier.start < earlier.stop ∧ earlier.stop ≤ later.start

private theorem inOrder_nil : InOrder p [] := ⟨nofun, nofun, .nil⟩

/-- A statement that does not fit is the last one that is tried. -/
private theorem inOrder_last (hq : Passes 0 p q) (stop : Nat) :
    InOrder p [⟨q.place, stop, none⟩] := by
  have hplace := hq.place
  have hbound := hq.bound
  rw [hq.tokens] at hbound
  refine ⟨?_, ?_, List.pairwise_singleton _ _⟩
  · intro visit hvisit
    obtain rfl := List.mem_singleton.mp hvisit
    exact ⟨hplace, hbound⟩
  · intro visit hvisit stmt hstmt
    obtain rfl := List.mem_singleton.mp hvisit
    cases hstmt

private theorem InOrder.cons {tried : List Visit} (hq : Passes 0 p q) (hr : Passes 1 q r)
    (h : InOrder r tried) (stmt? : Option Stmt) :
    InOrder p (⟨q.place, r.place, stmt?⟩ :: tried) := by
  have hstart : p.place ≤ q.place := hq.place
  have hmoved : q.place < r.place := hr.place
  have htokens : r.tokens = p.tokens := hr.tokens.trans hq.tokens
  have hbound : r.place < p.tokens.length := htokens ▸ hr.bound
  refine ⟨?_, ?_, ?_⟩
  · rintro visit (_ | ⟨_, hvisit⟩)
    · exact ⟨hstart, Nat.lt_trans hmoved hbound⟩
    · have hwithin := h.within visit hvisit
      rw [htokens] at hwithin
      exact ⟨by omega, hwithin.2⟩
  · rintro visit (_ | ⟨_, hvisit⟩) stmt hstmt
    · exact ⟨hmoved, hbound⟩
    · rw [← htokens]
      exact h.moved visit hvisit stmt hstmt
  · refine List.pairwise_cons.mpr ⟨fun visit hvisit => ?_, h.apart⟩
    exact ⟨hmoved, (h.within visit hvisit).1⟩

/-- A parser is never stuck, and tries one statement behind the other. -/
theorem visits_ordered (budget : Nat) (hp : p.Standing) :
    InOrder p (visits budget p).1 ∧ ∀ position, (visits budget p).2 ≠ .stuck position := by
  induction budget generalizing p with
  | zero => exact ⟨inOrder_nil, nofun⟩
  | succ budget ih =>
    rw [visits]
    have hskip := skipSemicolons_advances budget p hp
    cases hsemicolons : (skipSemicolons budget).run p with
    | error halt q => exact ⟨inOrder_nil, nofun⟩
    | ok value q =>
      have hq : Passes 0 p q := hskip value q hsemicolons
      have hread := (rules_advance (spliceWithin budget) budget).statement q (hq.standing hp)
      dsimp only
      split
      · exact ⟨inOrder_nil, nofun⟩
      · cases hstatement : (statement (spliceWithin budget) budget).run q with
        | error halt r => exact ⟨inOrder_last hq r.place, nofun⟩
        | ok stmt r =>
          have hr : Passes 1 q r := hread stmt r hstatement
          have hmoved : r.place ≠ q.place := Nat.ne_of_gt hr.place
          dsimp only
          rw [if_neg hmoved]
          obtain ⟨horder, hending⟩ := ih (hr.standing (hq.standing hp))
          exact ⟨horder.cons hq hr (some stmt), hending⟩

end Animatic.Script.Parser
