import Animatic.Proofs.Script.Outcome
import Animatic.Proofs.Script.Relocation

/-!
# Reading in front of other tokens

What is read from the tokens of a text does not depend on where the text stands, nor on what stands
behind a semicolon that takes the place of its end.

* `Exchange`: tokens that take the place of the end of a text which moves elsewhere.
* `Exchange.Follows`: a reading goes on in the moved text as it does in the text itself, and fails
  as it does if the moved text ends there too.
* `Exchange.expression_follows`, `Exchange.statement_follows`: the rules of the grammar do so.
* `Exchange.program_after`: the statements of the text come in front of those behind it.
-/

namespace Animatic.Script

/-- A token that does not stand for the end of a text. -/
abbrev Token.Inner := { token : Token // token.kind ≠ .finish }

/-- What a reading of a moved text gives. -/
def relocateOutcome {α : Type} (f : Position → Position) (move : α → α) :
    Except Diagnostic α → Except Diagnostic α
  | .ok value => .ok (move value)
  | .error d => .error (d.relocate f)

/-- A text that moves, and tokens that take the place of its end: the end of another text, or a
semicolon and anything. -/
structure Exchange where
  place : Position → Position
  splice : Position → List Char → Except Diagnostic (List Part)
  finish : Token
  closing : Token
  more : List Token
  relocation : Position.Relocation place
  spliced : ∀ position text,
    splice (place position) text =
      relocateOutcome place (Part.allRelocate place) (splice position text)
  finishes : finish.kind = .finish
  closes : closing.kind = .finish ∨ closing.kind = .mark .semicolon

namespace Exchange

variable (e : Exchange) {α β : Type} {n m : Nat}

/-- Some tokens of the text, and its end. -/
def before (part : List Token.Inner) : List Token := part.map Subtype.val ++ [e.finish]

/-- The same tokens in the moved text, and what stands behind them. -/
def after (part : List Token.Inner) : List Token :=
  part.map (·.val.relocate e.place) ++ e.closing :: e.more

/-- Whether the moved text ends where the text does. -/
def Ends : Prop := e.closing = e.finish.relocate e.place ∧ e.more = []

/-- A reading of the text and one of the moved text: they take the same tokens for the same value,
and they fail alike if both texts end. -/
inductive Follows (move : α → α) : Read α n → Read α m → Prop where
  | ok (value : α) (part : List Token.Inner) (h : (e.before part).length < n)
      (h' : (e.after part).length < m) :
      Follows move (.ok ⟨value, e.before part, h⟩) (.ok ⟨move value, e.after part, h'⟩)
  | error {d : Diagnostic} {r : Read α m} (h : e.Ends → r = .error (d.relocate e.place)) :
      Follows move (.error d) r

theorem length_before_pos (part : List Token.Inner) : 0 < (e.before part).length := by
  rw [before, List.length_append]
  exact Nat.succ_pos _

theorem length_before_cons (token : Token.Inner) (part : List Token.Inner) :
    (e.before (token :: part)).length = (e.before part).length + 1 := rfl

variable {e} {move : α → α} {move' : β → β} {mark : Mark} {part : List Token.Inner}

theorem Follows.bind {k l : Nat} {r : Read α n} {r' : Read α m} {next : Reading α n → Read β k}
    {next' : Reading α m → Read β l} (hread : e.Follows move r r')
    (hnext : ∀ value part h h', e.Follows move' (next ⟨value, e.before part, h⟩)
      (next' ⟨move value, e.after part, h'⟩)) :
    e.Follows move' (r >>= next) (r' >>= next') := by
  cases hread with
  | ok value part h h' => exact hnext value part h h'
  | error h =>
    refine .error fun hends => ?_
    rw [h hends]
    rfl

/-! ## What stands in front -/

theorem after_eq_map (hends : e.Ends) (part : List Token.Inner) :
    e.after part = (e.before part).map (Token.relocate e.place) := by
  rw [after, before, hends.1, hends.2, List.map_append, List.map_map, List.map_singleton]
  rfl

theorem front_after (hends : e.Ends) (part : List Token.Inner) :
    front (e.after part) = (front (e.before part)).relocate e.place := by
  rw [after_eq_map hends]
  cases part <;> rfl

theorem expected_after (hends : e.Ends) (what : String) (part : List Token.Inner) :
    expected what (e.after part) = (expected what (e.before part)).relocate e.place := by
  rw [expected, front_after hends]
  rfl

theorem finish_isMark (mark : Mark) : e.finish.isMark mark = false := by
  rw [Token.isMark, e.finishes]

theorem closing_isMark (hmark : mark ≠ .semicolon) : e.closing.isMark mark = false := by
  obtain h | h := e.closes
  · rw [Token.isMark, h]
  · rw [Token.isMark, h]
    simpa using hmark.symm

theorem before_eq_cons {token : Token} {rest : List Token} (h : e.before part = token :: rest)
    (hfinish : token.kind ≠ .finish) :
    ∃ others, part = ⟨token, hfinish⟩ :: others ∧ rest = e.before others := by
  cases part with
  | nil =>
    obtain ⟨rfl, -⟩ := List.cons.inj h
    exact absurd e.finishes hfinish
  | cons first others =>
    obtain ⟨rfl, rfl⟩ := List.cons.inj h
    exact ⟨others, rfl, rfl⟩

theorem after_eq_cons {token : Token} {rest : List Token} (h : e.after part = token :: rest)
    (hfinish : token.kind ≠ .finish) (hsemicolon : token.kind ≠ .mark .semicolon) :
    ∃ first others, part = first :: others ∧ token = first.val.relocate e.place ∧
      rest = e.after others := by
  cases part with
  | nil =>
    obtain ⟨rfl, -⟩ := List.cons.inj h
    exact absurd e.closes (not_or_intro hfinish hsemicolon)
  | cons first others =>
    obtain ⟨rfl, rfl⟩ := List.cons.inj h
    exact ⟨first, others, rfl, rfl, rfl⟩

/-- A kind of token is in front of both texts or of neither. -/
theorem not_front {kind : Token.Kind}
    (hfront : ¬ ∃ token rest, part = token :: rest ∧ token.val.kind = kind)
    (hfinish : kind ≠ .finish) (hsemicolon : kind ≠ .mark .semicolon) :
    (∀ text position rest, e.before part = ⟨kind, text, position⟩ :: rest → False) ∧
      ∀ text position rest, e.after part = ⟨kind, text, position⟩ :: rest → False := by
  refine ⟨fun text position rest h => ?_, fun text position rest h => ?_⟩
  · obtain ⟨others, rfl, -⟩ := before_eq_cons h hfinish
    exact hfront ⟨_, _, rfl, rfl⟩
  · obtain ⟨first, others, rfl, hfirst, -⟩ := after_eq_cons h hfinish hsemicolon
    exact hfront ⟨first, others, rfl, (congrArg Token.kind hfirst).symm⟩

/-- A name and a kind of token behind it are in front of both texts or of neither. -/
theorem not_pair {name : String} {kind : Token.Kind}
    (hpair : ¬ ∃ first second rest, part = first :: second :: rest ∧
      first.val.kind = .name name ∧ second.val.kind = kind)
    (hfinish : kind ≠ .finish) (hsemicolon : kind ≠ .mark .semicolon) :
    (∀ text position text' position' rest,
      e.before part = ⟨.name name, text, position⟩ :: ⟨kind, text', position'⟩ :: rest → False) ∧
      ∀ text position text' position' rest,
        e.after part = ⟨.name name, text, position⟩ :: ⟨kind, text', position'⟩ :: rest →
          False := by
  refine ⟨fun text position text' position' rest h => ?_,
    fun text position text' position' rest h => ?_⟩
  · obtain ⟨others, rfl, hothers⟩ := before_eq_cons h nofun
    obtain ⟨others, rfl, -⟩ := before_eq_cons hothers.symm hfinish
    exact hpair ⟨_, _, _, rfl, rfl, rfl⟩
  · obtain ⟨first, others, rfl, hfirst, hothers⟩ := after_eq_cons h nofun nofun
    obtain ⟨second, others, rfl, hsecond, -⟩ := after_eq_cons hothers.symm hfinish hsemicolon
    exact hpair ⟨first, second, others, rfl, (congrArg Token.kind hfirst).symm,
      (congrArg Token.kind hsecond).symm⟩

/-- What stands at the end of the text, and of the moved one if it ends there too. -/
theorem exists_finish : ∃ text position, e.before [] = [⟨.finish, text, position⟩] ∧
    (e.Ends → e.after [] = [⟨.finish, text, e.place position⟩]) := by
  obtain ⟨text, position, hfinish⟩ : ∃ text position, e.finish = ⟨.finish, text, position⟩ :=
    ⟨e.finish.text, e.finish.position, by rw [← e.finishes]⟩
  refine ⟨text, position, congrArg ([·]) hfinish, fun hends => ?_⟩
  rw [after_eq_map hends, before, hfinish]
  rfl

/-- A mark other than a semicolon is in front of both texts or of neither. -/
theorem mark?_cases (hmark : mark ≠ .semicolon) (part : List Token.Inner) :
    (∃ rest h h', mark? mark (e.before part) = some ⟨(), e.before rest, h⟩ ∧
      mark? mark (e.after part) = some ⟨(), e.after rest, h'⟩) ∨
    mark? mark (e.before part) = none ∧ mark? mark (e.after part) = none := by
  cases part with
  | nil =>
    refine .inr ⟨if_neg ?_, if_neg ?_⟩
    · rw [finish_isMark]
      exact Bool.false_ne_true
    · rw [closing_isMark hmark]
      exact Bool.false_ne_true
  | cons token rest =>
    by_cases h : token.val.isMark mark = true
    · exact .inl ⟨rest, _, _, if_pos h, if_pos h⟩
    · exact .inr ⟨if_neg h, if_neg h⟩

theorem takeMark_follows (hmark : mark ≠ .semicolon) (what : String) (part : List Token.Inner) :
    e.Follows id (takeMark mark what (e.before part)) (takeMark mark what (e.after part)) := by
  unfold takeMark
  obtain ⟨rest, h, h', hbefore, hafter⟩ | ⟨hbefore, hafter⟩ := mark?_cases (e := e) hmark part
  · rw [hbefore, hafter]
    exact .ok () rest h h'
  · rw [hbefore, hafter]
    exact .error fun hends => by rw [expected_after hends]

theorem takeName_follows (part : List Token.Inner) :
    e.Follows id (takeName (e.before part)) (takeName (e.after part)) := by
  cases part with
  | nil =>
    obtain ⟨text, position, hbefore, hafter⟩ := exists_finish (e := e)
    rw [hbefore]
    exact .error fun hends => by rw [hafter hends]; rfl
  | cons token rest =>
    obtain ⟨⟨kind, text, position⟩, hkind⟩ := token
    cases kind with
    | name name => exact .ok name rest _ _
    | _ => exact .error fun hends => congrArg Except.error (expected_after hends _ (_ :: rest))

theorem takePropertyName_follows (part : List Token.Inner) :
    e.Follows id (takePropertyName (e.before part)) (takePropertyName (e.after part)) := by
  cases part with
  | nil =>
    obtain ⟨text, position, hbefore, hafter⟩ := exists_finish (e := e)
    rw [hbefore]
    exact .error fun hends => by rw [hafter hends]; rfl
  | cons token rest =>
    obtain ⟨⟨kind, text, position⟩, hkind⟩ := token
    cases kind with
    | name name => exact .ok name rest _ _
    | literal style name =>
      cases style with
      | verbatim => exact .ok name rest _ _
      | _ => exact .error fun hends => congrArg Except.error (expected_after hends _ (_ :: rest))
    | _ => exact .error fun hends => congrArg Except.error (expected_after hends _ (_ :: rest))

theorem parameterList_follows (part : List Token.Inner) :
    e.Follows id (parameterList (e.before part)) (parameterList (e.after part)) := by
  unfold parameterList
  obtain ⟨rest, h, h', hbefore, hafter⟩ | ⟨hbefore, hafter⟩ :=
    mark?_cases (e := e) (show Mark.rightParen ≠ .semicolon by decide) part
  · rw [hbefore, hafter]
    exact .ok [] rest h h'
  · rw [hbefore, hafter]
    refine (takeName_follows part).bind fun name part₁ h₁ h₁' => ?_
    dsimp only
    obtain ⟨rest, h, h', hbefore, hafter⟩ | ⟨hbefore, hafter⟩ :=
      mark?_cases (e := e) (show Mark.comma ≠ .semicolon by decide) part₁
    · rw [hbefore, hafter]
      refine (parameterList_follows rest).bind fun names part₂ h₂ h₂' => ?_
      exact .ok (name :: names) part₂ _ _
    · rw [hbefore, hafter]
      refine (takeMark_follows (by decide) _ part₁).bind fun _ part₂ h₂ h₂' => ?_
      exact .ok [name] part₂ _ _
termination_by (e.before part).length

/-! ## Expressions -/

theorem finish_binaryOp? : e.finish.binaryOp? = none := by
  rw [Token.binaryOp?, e.finishes]

theorem closing_binaryOp? : e.closing.binaryOp? = none := by
  obtain h | h := e.closes
  · simp only [Token.binaryOp?, h]
  · simp only [Token.binaryOp?, h, Mark.binaryOp?]

theorem finish_unaryOp? : e.finish.unaryOp? = none := by
  rw [Token.unaryOp?, e.finishes]

theorem closing_unaryOp? : e.closing.unaryOp? = none := by
  obtain h | h := e.closes <;> rw [Token.unaryOp?, h]

mutual

theorem expression_follows (constructors : Bool) (part : List Token.Inner) :
    e.Follows (Expr.relocate e.place) (expression e.splice constructors (e.before part))
      (expression e.splice constructors (e.after part)) := by
  rw [expression, expression]
  exact binary_follows constructors 1 part
termination_by ((e.before part).length, 4)

theorem binary_follows (constructors : Bool) (least : Nat) (part : List Token.Inner) :
    e.Follows (Expr.relocate e.place) (binary e.splice constructors least (e.before part))
      (binary e.splice constructors least (e.after part)) := by
  rw [binary, binary]
  refine (unary_follows constructors part).bind fun lhs part₁ h₁ h₁' => ?_
  refine (operators_follows constructors least lhs part₁).bind fun value part₂ h₂ h₂' => ?_
  exact .ok value part₂ _ _
termination_by ((e.before part).length, 3)

theorem operators_follows (constructors : Bool) (least : Nat) (lhs : Expr)
    (part : List Token.Inner) :
    e.Follows (Expr.relocate e.place) (operators e.splice constructors least lhs (e.before part))
      (operators e.splice constructors least (lhs.relocate e.place) (e.after part)) := by
  cases part with
  | nil =>
    change e.Follows _ (operators _ _ _ _ [e.finish]) (operators _ _ _ _ (e.closing :: e.more))
    rw [operators, operators, finish_binaryOp?, closing_binaryOp?]
    exact .ok lhs [] _ _
  | cons token rest =>
    have hcons := e.length_before_cons token rest
    change e.Follows _ (operators _ _ _ _ (token.val :: e.before rest))
      (operators _ _ _ _ (token.val.relocate e.place :: e.after rest))
    rw [operators, operators,
      show (token.val.relocate e.place).binaryOp? = token.val.binaryOp? from rfl]
    cases token.val.binaryOp? with
    | none => exact .ok lhs (token :: rest) _ _
    | some op =>
      dsimp only
      by_cases hleast : op.precedence < least
      · rw [if_pos hleast, if_pos hleast]
        exact .ok lhs (token :: rest) _ _
      · rw [if_neg hleast, if_neg hleast]
        refine (binary_follows constructors (op.precedence + 1) rest).bind
          fun rhs part₁ h₁ h₁' => ?_
        refine (operators_follows constructors least
          (.binary token.val.position op lhs rhs) part₁).bind fun value part₂ h₂ h₂' => ?_
        exact .ok value part₂ _ _
termination_by ((e.before part).length, 0)

theorem unary_follows (constructors : Bool) (part : List Token.Inner) :
    e.Follows (Expr.relocate e.place) (unary e.splice constructors (e.before part))
      (unary e.splice constructors (e.after part)) := by
  cases part with
  | nil =>
    change e.Follows _ (unary _ _ [e.finish]) (unary _ _ (e.closing :: e.more))
    rw [unary, finish_unaryOp?]
    dsimp only
    rw [unary, closing_unaryOp?]
    exact postfixed_follows constructors []
  | cons token rest =>
    have hcons := e.length_before_cons token rest
    change e.Follows _ (unary _ _ (token.val :: e.before rest))
      (unary _ _ (token.val.relocate e.place :: e.after rest))
    rw [unary, unary, show (token.val.relocate e.place).unaryOp? = token.val.unaryOp? from rfl]
    cases token.val.unaryOp? with
    | none => exact postfixed_follows constructors (token :: rest)
    | some op =>
      refine (unary_follows constructors rest).bind fun operand part₁ h₁ h₁' => ?_
      exact .ok (Expr.unary token.val.position op operand) part₁ _ _
termination_by ((e.before part).length, 2)

theorem postfixed_follows (constructors : Bool) (part : List Token.Inner) :
    e.Follows (Expr.relocate e.place) (postfixed e.splice constructors (e.before part))
      (postfixed e.splice constructors (e.after part)) := by
  rw [postfixed, postfixed]
  refine (primary_follows constructors part).bind fun value part₁ h₁ h₁' => ?_
  refine (suffixes_follows constructors value part₁).bind fun value part₂ h₂ h₂' => ?_
  exact .ok value part₂ _ _
termination_by ((e.before part).length, 1)
decreasing_by all_goals omega

theorem suffixes_follows (constructors : Bool) (value : Expr) (part : List Token.Inner) :
    e.Follows (Expr.relocate e.place) (suffixes e.splice constructors value (e.before part))
      (suffixes e.splice constructors (value.relocate e.place) (e.after part)) := by
  cases part with
  | nil =>
    change e.Follows _ (suffixes _ _ _ [e.finish]) (suffixes _ _ _ (e.closing :: e.more))
    rw [suffixes, suffixes]
    simp only [finish_isMark, closing_isMark (show Mark.dot ≠ .semicolon by decide),
      closing_isMark (show Mark.leftParen ≠ .semicolon by decide),
      closing_isMark (show Mark.leftBrace ≠ .semicolon by decide), Bool.false_and,
      Bool.false_eq_true, if_false]
    exact .ok value [] _ _
  | cons token rest =>
    have hcons := e.length_before_cons token rest
    change e.Follows _ (suffixes _ _ _ (token.val :: e.before rest))
      (suffixes _ _ _ (token.val.relocate e.place :: e.after rest))
    have hmark (mark : Mark) :
        (token.val.relocate e.place).isMark mark = token.val.isMark mark := rfl
    rw [suffixes, suffixes, hmark, hmark, hmark]
    by_cases hdot : token.val.isMark .dot = true
    · rw [if_pos hdot, if_pos hdot]
      refine (takeName_follows rest).bind fun name part₁ h₁ h₁' => ?_
      dsimp only
      rw [Expr.position_relocate]
      refine (suffixes_follows constructors (.member value.position value name) part₁).bind
        fun value part₂ h₂ h₂' => ?_
      exact .ok value part₂ _ _
    rw [if_neg hdot, if_neg hdot]
    by_cases hparen : token.val.isMark .leftParen = true
    · rw [if_pos hparen, if_pos hparen]
      refine (argumentList_follows false rest).bind fun arguments part₁ h₁ h₁' => ?_
      dsimp only
      rw [Expr.position_relocate]
      refine (suffixes_follows constructors (.call value.position value arguments) part₁).bind
        fun value part₂ h₂ h₂' => ?_
      exact .ok value part₂ _ _
    rw [if_neg hparen, if_neg hparen]
    by_cases hbrace : (token.val.isMark .leftBrace && constructors) = true
    · rw [if_pos hbrace, if_pos hbrace, Expr.constructorHead?_relocate]
      cases value.constructorHead? with
      | none => exact .ok value (token :: rest) _ _
      | some head =>
        obtain ⟨typeName, arguments⟩ := head
        dsimp only [Option.map_some]
        refine (propertyList_follows rest).bind fun properties part₁ h₁ h₁' => ?_
        dsimp only
        rw [Expr.position_relocate]
        refine (suffixes_follows constructors
          (.construct value.position typeName arguments properties) part₁).bind
          fun value part₂ h₂ h₂' => ?_
        exact .ok value part₂ _ _
    · rw [if_neg hbrace, if_neg hbrace]
      exact .ok value (token :: rest) _ _
termination_by ((e.before part).length, 0)

theorem primary_follows (constructors : Bool) (part : List Token.Inner) :
    e.Follows (Expr.relocate e.place) (primary e.splice constructors (e.before part))
      (primary e.splice constructors (e.after part)) := by
  cases part with
  | nil =>
    obtain ⟨text, position, hbefore, hafter⟩ := exists_finish (e := e)
    rw [hbefore, primary]
    exact .error fun hends => by rw [hafter hends, primary]; rfl
  | cons token rest =>
    have hcons := e.length_before_cons token rest
    obtain ⟨⟨kind, text, position⟩, hkind⟩ := token
    change e.Follows _ (primary _ _ (⟨kind, text, position⟩ :: e.before rest))
      (primary _ _ (⟨kind, text, e.place position⟩ :: e.after rest))
    rw [primary, primary]
    cases kind with
    | number value => exact .ok (Expr.number position value) rest _ _
    | literal style content =>
      cases style with
      | verbatim => exact .ok (Expr.text position content) rest _ _
      | names =>
        dsimp only
        rw [namedParts_relocate]
        exact .ok (Expr.interpolated position _) rest _ _
      | expressions =>
        dsimp only
        rw [e.spliced]
        cases e.splice position content.toList with
        | ok parts => exact .ok (Expr.interpolated position parts) rest _ _
        | error d => exact .error fun _ => rfl
    | name name =>
      dsimp only
      by_cases hbool : (name == "true" || name == "false") = true
      · rw [if_pos hbool, if_pos hbool]
        exact .ok (Expr.bool position (name == "true")) rest _ _
      rw [if_neg hbool, if_neg hbool]
      by_cases hadd : (name == "Add" && constructors) = true
      · rw [if_pos hadd, if_pos hadd]
        obtain ⟨rest₁, h, h', hbefore, hafter⟩ | ⟨hbefore, hafter⟩ :=
          mark?_cases (e := e) (show Mark.leftBrace ≠ .semicolon by decide) rest
        · rw [hbefore, hafter]
          have hclose : Mark.rightBrace ≠ .semicolon := by decide
          refine (expressionList_follows hclose _ rest₁).bind fun items part₂ h₂ h₂' => ?_
          exact .ok (Expr.call position (.name position name) [.positional (.array position items)])
            part₂ _ _
        · rw [hbefore, hafter]
          exact .ok (Expr.name position name) rest _ _
      · rw [if_neg hadd, if_neg hadd]
        exact .ok (Expr.name position name) rest _ _
    | mark mark =>
      cases mark with
      | leftBracket =>
        have hclose : Mark.rightBracket ≠ .semicolon := by decide
        refine (expressionList_follows hclose _ rest).bind fun items part₁ h₁ h₁' => ?_
        exact .ok (Expr.array position items) part₁ _ _
      | leftParen =>
        refine (expression_follows true rest).bind fun value part₁ h₁ h₁' => ?_
        refine (takeMark_follows (by decide) _ part₁).bind fun _ part₂ h₂ h₂' => ?_
        exact .ok value part₂ _ _
      | _ => exact .error fun _ => rfl
    | _ => exact .error fun _ => rfl
termination_by ((e.before part).length, 0)

theorem expressionList_follows {close : Mark} (hclose : close ≠ .semicolon) (what : String)
    (part : List Token.Inner) :
    e.Follows (Expr.allRelocate e.place) (expressionList e.splice close what (e.before part))
      (expressionList e.splice close what (e.after part)) := by
  rw [expressionList, expressionList]
  obtain ⟨rest, h, h', hbefore, hafter⟩ | ⟨hbefore, hafter⟩ := mark?_cases (e := e) hclose part
  · rw [hbefore, hafter]
    exact .ok [] rest h h'
  · rw [hbefore, hafter]
    refine (expression_follows true part).bind fun item part₁ h₁ h₁' => ?_
    dsimp only
    obtain ⟨rest, h, h', hbefore, hafter⟩ | ⟨hbefore, hafter⟩ :=
      mark?_cases (e := e) (show Mark.comma ≠ .semicolon by decide) part₁
    · rw [hbefore, hafter]
      refine (expressionList_follows hclose what rest).bind fun items part₂ h₂ h₂' => ?_
      exact .ok (item :: items) part₂ _ _
    · rw [hbefore, hafter]
      refine (takeMark_follows hclose what part₁).bind fun _ part₂ h₂ h₂' => ?_
      exact .ok [item] part₂ _ _
termination_by ((e.before part).length, 5)

theorem argumentList_follows (seenNamed : Bool) (part : List Token.Inner) :
    e.Follows (Argument.allRelocate e.place) (argumentList e.splice seenNamed (e.before part))
      (argumentList e.splice seenNamed (e.after part)) := by
  rw [argumentList, argumentList]
  obtain ⟨rest, h, h', hbefore, hafter⟩ | ⟨hbefore, hafter⟩ :=
    mark?_cases (e := e) (show Mark.rightParen ≠ .semicolon by decide) part
  · rw [hbefore, hafter]
    exact .ok [] rest h h'
  · rw [hbefore, hafter]
    refine (argument_follows seenNamed part).bind fun first part₁ h₁ h₁' => ?_
    dsimp only
    rw [Argument.isNamed_relocate]
    obtain ⟨rest, h, h', hbefore, hafter⟩ | ⟨hbefore, hafter⟩ :=
      mark?_cases (e := e) (show Mark.comma ≠ .semicolon by decide) part₁
    · rw [hbefore, hafter]
      refine (argumentList_follows first.isNamed rest).bind fun others part₂ h₂ h₂' => ?_
      exact .ok (first :: others) part₂ _ _
    · rw [hbefore, hafter]
      refine (takeMark_follows (by decide) _ part₁).bind fun _ part₂ h₂ h₂' => ?_
      exact .ok [first] part₂ _ _
termination_by ((e.before part).length, 6)

theorem argument_follows (seenNamed : Bool) (part : List Token.Inner) :
    e.Follows (Argument.relocate e.place) (argument e.splice seenNamed (e.before part))
      (argument e.splice seenNamed (e.after part)) := by
  by_cases hnamed : ∃ name first second rest, part = first :: second :: rest ∧
      first.val.kind = .name name ∧ second.val.kind = .mark .colon
  · obtain ⟨name, ⟨⟨kind, text, position⟩, hfirst⟩, ⟨⟨kind', text', position'⟩, hsecond⟩, rest, rfl,
      hname, hcolon⟩ := hnamed
    obtain rfl : kind = .name name := hname
    obtain rfl : kind' = .mark .colon := hcolon
    have hcons := e.length_before_cons ⟨⟨.name name, text, position⟩, hfirst⟩
      (⟨⟨.mark .colon, text', position'⟩, hsecond⟩ :: rest)
    have hcons' := e.length_before_cons ⟨⟨.mark .colon, text', position'⟩, hsecond⟩ rest
    change e.Follows _ (argument _ _ (⟨_, _, _⟩ :: ⟨_, _, _⟩ :: e.before rest))
      (argument _ _ (⟨_, _, _⟩ :: ⟨_, _, _⟩ :: e.after rest))
    rw [argument, argument]
    refine (expression_follows true rest).bind fun value part₁ h₁ h₁' => ?_
    exact .ok (Argument.named name value) part₁ _ _
  · have hpositional (name : String) :=
      not_pair (e := e) (fun h => hnamed ⟨name, h⟩) nofun (by simp)
    rw [argument, argument]
    · cases seenNamed with
      | true => exact .error fun hends => by rw [front_after hends]; rfl
      | false =>
        refine (expression_follows true part).bind fun value part₁ h₁ h₁' => ?_
        exact .ok (Argument.positional value) part₁ _ _
    · exact fun name => (hpositional name).2
    · exact fun name => (hpositional name).1
termination_by ((e.before part).length, 5)

theorem propertyList_follows (part : List Token.Inner) :
    e.Follows (PropertyInit.allRelocate e.place) (propertyList e.splice (e.before part))
      (propertyList e.splice (e.after part)) := by
  rw [propertyList, propertyList]
  obtain ⟨rest, h, h', hbefore, hafter⟩ | ⟨hbefore, hafter⟩ :=
    mark?_cases (e := e) (show Mark.rightBrace ≠ .semicolon by decide) part
  · rw [hbefore, hafter]
    exact .ok [] rest h h'
  · rw [hbefore, hafter]
    refine (takePropertyName_follows part).bind fun name part₁ h₁ h₁' => ?_
    refine (takeMark_follows (by decide) _ part₁).bind fun _ part₂ h₂ h₂' => ?_
    refine (expression_follows true part₂).bind fun value part₃ h₃ h₃' => ?_
    dsimp only
    obtain ⟨rest, h, h', hbefore, hafter⟩ | ⟨hbefore, hafter⟩ :=
      mark?_cases (e := e) (show Mark.comma ≠ .semicolon by decide) part₃
    · rw [hbefore, hafter]
      refine (propertyList_follows rest).bind fun others part₄ h₄ h₄' => ?_
      exact .ok (PropertyInit.mk name value :: others) part₄ _ _
    · rw [hbefore, hafter]
      refine (takeMark_follows (by decide) _ part₃).bind fun _ part₄ h₄ h₄' => ?_
      exact .ok [PropertyInit.mk name value] part₄ _ _
termination_by ((e.before part).length, 0)

end

/-! ## Statements -/

theorem returnsValue_after (position : Position) (part : List Token.Inner) :
    returnsValue (e.place position).line (e.after part) =
      returnsValue position.line (e.before part) := by
  cases part with
  | nil =>
    have hbefore : returnsValue position.line (e.before []) = false := by
      simp [returnsValue, before, front, Token.isFinish, e.finishes]
    have hafter : returnsValue (e.place position).line (e.after []) = false := by
      obtain h | h := e.closes <;>
        simp [returnsValue, after, front, Token.isFinish, Token.isMark, h]
    rw [hbefore, hafter]
  | cons token rest =>
    have hline : ((e.place token.val.position).line == (e.place position).line) =
        (token.val.position.line == position.line) :=
      Bool.eq_iff_iff.mpr (by simpa using e.relocation.line token.val.position position)
    change (_ == _ && _) = (_ == _ && _)
    exact congrArg (· && _) hline

/-- A body by what stands behind the semicolons in front of it. -/
theorem blockBody_eq {splice : Position → List Char → Except Diagnostic (List Part)}
    {tokens inner : List Token} (hinner : skipSemicolons tokens = inner)
    (h : inner.length ≤ tokens.length) :
    blockBody splice tokens =
      match mark? .rightBrace inner with
      | some ⟨_, rest, h₁⟩ => .ok ⟨[], rest, Nat.lt_of_lt_of_le h₁ h⟩
      | none =>
        if (front inner).isFinish then .error ⟨.unclosedBlock, (front inner).position⟩
        else do
          let ⟨first, rest₁, h₁⟩ ← statement splice inner
          let ⟨others, rest₂, h₂⟩ ← blockBody splice rest₁
          return ⟨first :: others, rest₂, Nat.lt_of_lt_of_le (Nat.lt_trans h₂ h₁) h⟩ := by
  subst hinner
  exact blockBody.eq_def splice tokens

/-- The tokens behind any semicolons in front. -/
def behindSemicolons (part : List Token.Inner) : List Token.Inner :=
  part.dropWhile (·.val.isMark .semicolon)

theorem behindSemicolons_pos {token : Token.Inner} (h : token.val.isMark .semicolon = true)
    (rest : List Token.Inner) : behindSemicolons (token :: rest) = behindSemicolons rest :=
  List.dropWhile_cons_of_pos h

theorem behindSemicolons_neg {token : Token.Inner} (h : ¬ token.val.isMark .semicolon = true)
    (rest : List Token.Inner) : behindSemicolons (token :: rest) = token :: rest :=
  List.dropWhile_cons_of_neg h

theorem skipSemicolons_before (part : List Token.Inner) :
    skipSemicolons (e.before part) = e.before (behindSemicolons part) := by
  induction part with
  | nil =>
    refine skipSemicolons_eq fun hfinish => ?_
    exact Token.Kind.noConfusion (e.finishes.symm.trans hfinish)
  | cons token rest ih =>
    by_cases h : token.val.isMark .semicolon = true
    · rw [behindSemicolons_pos h, ← ih]
      exact skipSemicolons_cons (isMark_iff.mp h)
    · rw [behindSemicolons_neg h]
      exact List.dropWhile_cons_of_neg h

/-- Semicolons in front of the end run on into what takes its place. -/
theorem skipSemicolons_after (part : List Token.Inner) :
    skipSemicolons (e.after part) =
      match behindSemicolons part with
      | [] => skipSemicolons (e.closing :: e.more)
      | first :: others => e.after (first :: others) := by
  induction part with
  | nil => rfl
  | cons token rest ih =>
    by_cases h : token.val.isMark .semicolon = true
    · rw [behindSemicolons_pos h, ← ih]
      exact List.dropWhile_cons_of_pos h
    · rw [behindSemicolons_neg h]
      exact List.dropWhile_cons_of_neg h

theorem skipSemicolons_closing (hends : e.Ends) :
    skipSemicolons (e.closing :: e.more) = e.after [] := by
  refine skipSemicolons_eq fun hclosing => ?_
  have hkind : e.closing.kind = e.finish.kind := by rw [hends.1, Token.relocate]
  exact Token.Kind.noConfusion ((hkind.trans e.finishes).symm.trans hclosing)

theorem isFinish_eq_false (token : Token.Inner) : token.val.isFinish = false :=
  Bool.eq_false_iff.mpr fun h => token.property (isFinish_iff.mp h)

mutual

theorem statement_follows (part : List Token.Inner) :
    e.Follows (Stmt.relocate e.place) (statement e.splice (e.before part))
      (statement e.splice (e.after part)) := by
  by_cases hfunc : ∃ function word name rest, part = word :: name :: rest ∧
      word.val.kind = .name "func" ∧ name.val.kind = .name function
  · obtain ⟨function, ⟨⟨kind, text, position⟩, hfirst⟩, ⟨⟨kind', text', position'⟩, hsecond⟩, rest,
      rfl, hword, hname⟩ := hfunc
    obtain rfl : kind = .name "func" := hword
    obtain rfl : kind' = .name function := hname
    have hcons := e.length_before_cons ⟨⟨.name "func", text, position⟩, hfirst⟩
      (⟨⟨.name function, text', position'⟩, hsecond⟩ :: rest)
    have hcons' := e.length_before_cons ⟨⟨.name function, text', position'⟩, hsecond⟩ rest
    change e.Follows _ (statement _ (⟨_, _, _⟩ :: ⟨_, _, _⟩ :: e.before rest))
      (statement _ (⟨_, _, _⟩ :: ⟨_, _, _⟩ :: e.after rest))
    rw [statement, statement]
    refine (takeMark_follows (by decide) _ rest).bind fun _ part₁ h₁ h₁' => ?_
    refine (parameterList_follows part₁).bind fun parameters part₂ h₂ h₂' => ?_
    refine (block_follows part₂).bind fun body part₃ h₃ h₃' => ?_
    exact .ok (Stmt.define position function parameters body) part₃ _ _
  by_cases hrepeat : ∃ word rest, part = word :: rest ∧ word.val.kind = .name "repeat"
  · obtain ⟨⟨⟨kind, text, position⟩, hfirst⟩, rest, rfl, hword⟩ := hrepeat
    obtain rfl : kind = .name "repeat" := hword
    have hcons := e.length_before_cons ⟨⟨.name "repeat", text, position⟩, hfirst⟩ rest
    change e.Follows _ (statement _ (⟨_, _, _⟩ :: e.before rest))
      (statement _ (⟨_, _, _⟩ :: e.after rest))
    rw [statement, statement]
    refine (expression_follows false rest).bind fun count part₁ h₁ h₁' => ?_
    refine (block_follows part₁).bind fun body part₂ h₂ h₂' => ?_
    exact .ok (Stmt.loop position count body) part₂ _ _
  by_cases hwait : ∃ word rest, part = word :: rest ∧ word.val.kind = .name "wait"
  · obtain ⟨⟨⟨kind, text, position⟩, hfirst⟩, rest, rfl, hword⟩ := hwait
    obtain rfl : kind = .name "wait" := hword
    change e.Follows _ (statement _ (⟨_, _, _⟩ :: e.before rest))
      (statement _ (⟨_, _, _⟩ :: e.after rest))
    rw [statement, statement]
    refine (expression_follows true rest).bind fun seconds part₁ h₁ h₁' => ?_
    exact .ok (Stmt.wait position seconds) part₁ _ _
  by_cases hreturn : ∃ word rest, part = word :: rest ∧ word.val.kind = .name "return"
  · obtain ⟨⟨⟨kind, text, position⟩, hfirst⟩, rest, rfl, hword⟩ := hreturn
    obtain rfl : kind = .name "return" := hword
    change e.Follows _ (statement _ (⟨_, _, position⟩ :: e.before rest))
      (statement _ (⟨_, _, e.place position⟩ :: e.after rest))
    rw [statement, statement, returnsValue_after]
    by_cases hvalue : returnsValue position.line (e.before rest) = true
    · rw [if_pos hvalue, if_pos hvalue]
      refine (expression_follows true rest).bind fun value part₁ h₁ h₁' => ?_
      exact .ok (Stmt.leave position (some value)) part₁ _ _
    · rw [if_neg hvalue, if_neg hvalue]
      exact .ok (Stmt.leave position none) rest _ _
  have hfunc (function : String) := not_pair (e := e) (fun h => hfunc ⟨function, h⟩) nofun nofun
  have hrepeat := not_front (e := e) hrepeat nofun nofun
  have hwait := not_front (e := e) hwait nofun nofun
  have hreturn := not_front (e := e) hreturn nofun nofun
  rw [statement, statement]
  · cases part with
    | nil =>
      refine (expression_follows true []).bind fun value part₁ h₁ h₁' => ?_
      exact absurd (Nat.lt_of_le_of_lt (e.length_before_pos part₁) h₁) (Nat.lt_irrefl 1)
    | cons token rest =>
      refine (expression_follows true (token :: rest)).bind fun target part₁ h₁ h₁' => ?_
      dsimp only
      obtain ⟨rest₂, h, h', hbefore, hafter⟩ | ⟨hbefore, hafter⟩ :=
        mark?_cases (e := e) (show Mark.assign ≠ .semicolon by decide) part₁
      · rw [hbefore, hafter]
        dsimp only
        rw [Expr.isTarget_relocate]
        by_cases htarget : target.isTarget = true
        · rw [if_pos htarget, if_pos htarget]
          refine (expression_follows true rest₂).bind fun value part₃ h₃ h₃' => ?_
          exact .ok (Stmt.assign token.val.position target value) part₃ _ _
        · rw [if_neg htarget, if_neg htarget, Expr.position_relocate]
          exact .error fun _ => rfl
      · rw [hbefore, hafter]
        exact .ok (Stmt.expr token.val.position target) part₁ _ _
  · exact fun text position function => (hfunc function).2 text position
  · exact hrepeat.2
  · exact hwait.2
  · exact hreturn.2
  · exact fun text position function => (hfunc function).1 text position
  · exact hrepeat.1
  · exact hwait.1
  · exact hreturn.1
termination_by ((e.before part).length, 0)

theorem block_follows (part : List Token.Inner) :
    e.Follows (Stmt.allRelocate e.place) (block e.splice (e.before part))
      (block e.splice (e.after part)) := by
  rw [block, block]
  refine (takeMark_follows (by decide) _ part).bind fun _ part₁ h₁ h₁' => ?_
  refine (blockBody_follows part₁).bind fun body part₂ h₂ h₂' => ?_
  exact .ok body part₂ _ _
termination_by ((e.before part).length, 0)

theorem blockBody_follows (part : List Token.Inner) :
    e.Follows (Stmt.allRelocate e.place) (blockBody e.splice (e.before part))
      (blockBody e.splice (e.after part)) := by
  cases hinner : behindSemicolons part with
  | nil =>
    obtain ⟨text, position, hfinish, hends⟩ := exists_finish (e := e)
    have hbefore : skipSemicolons (e.before part) = [⟨.finish, text, position⟩] := by
      rw [skipSemicolons_before, hinner, hfinish]
    rw [blockBody_eq hbefore (hbefore ▸ length_skipSemicolons_le _)]
    refine .error fun h => ?_
    have hafter : skipSemicolons (e.after part) = [⟨.finish, text, e.place position⟩] := by
      rw [skipSemicolons_after, hinner]
      exact (skipSemicolons_closing h).trans (hends h)
    rw [blockBody_eq hafter (hafter ▸ length_skipSemicolons_le _)]
    rfl
  | cons first others =>
    have hbefore : skipSemicolons (e.before part) = e.before (first :: others) := by
      rw [skipSemicolons_before, hinner]
    have hafter : skipSemicolons (e.after part) = e.after (first :: others) := by
      rw [skipSemicolons_after, hinner]
    have hle : (e.before (first :: others)).length ≤ (e.before part).length :=
      hbefore ▸ length_skipSemicolons_le _
    rw [blockBody_eq hbefore hle, blockBody_eq hafter (hafter ▸ length_skipSemicolons_le _)]
    obtain ⟨rest, h, h', hmark, hmark'⟩ | ⟨hmark, hmark'⟩ :=
      mark?_cases (e := e) (show Mark.rightBrace ≠ .semicolon by decide) (first :: others)
    · rw [hmark, hmark']
      exact .ok [] rest _ _
    rw [hmark, hmark']
    change e.Follows _ (if first.val.isFinish then _ else _) (if first.val.isFinish then _ else _)
    rw [isFinish_eq_false, if_neg Bool.false_ne_true, if_neg Bool.false_ne_true]
    refine (statement_follows (first :: others)).bind fun stmt part₁ h₁ h₁' => ?_
    refine (blockBody_follows part₁).bind fun stmts part₂ h₂ h₂' => ?_
    exact .ok (stmt :: stmts) part₂ _ _
termination_by ((e.before part).length, 1)
decreasing_by all_goals omega

end

/-! ## Programs -/

/-- The statements of the text, and those of the moved text with what stands behind it. -/
inductive Continues (e : Exchange) :
    List Stmt × Option Diagnostic → List Stmt × Option Diagnostic → Prop where
  | finish : Continues e ([], none) (program e.splice (e.closing :: e.more))
  | error {d : Diagnostic} {result : List Stmt × Option Diagnostic}
      (h : e.Ends → result = ([], some (d.relocate e.place))) : Continues e ([], some d) result
  | cons (first : Stmt) {others others' : List Stmt} {problem problem' : Option Diagnostic}
      (h : Continues e (others, problem) (others', problem')) :
      Continues e (first :: others, problem) (first.relocate e.place :: others', problem')

theorem program_continues (part : List Token.Inner) :
    e.Continues (program e.splice (e.before part)) (program e.splice (e.after part)) := by
  rw [program_eq, program_eq, skipSemicolons_before, skipSemicolons_after]
  cases hinner : behindSemicolons part with
  | nil =>
    have hfinish : programOutcome e.splice (e.before []) = ([], none) :=
      if_pos (isFinish_iff.mpr e.finishes)
    dsimp only
    rw [hfinish, ← program_eq]
    exact .finish
  | cons first others =>
    have hle : (e.before (first :: others)).length ≤ (e.before part).length := by
      rw [← hinner, ← skipSemicolons_before]
      exact length_skipSemicolons_le _
    dsimp only
    rw [programOutcome, programOutcome]
    change e.Continues (if first.val.isFinish then _ else _) (if first.val.isFinish then _ else _)
    rw [isFinish_eq_false, if_neg Bool.false_ne_true, if_neg Bool.false_ne_true]
    have hstatement := statement_follows (e := e) (first :: others)
    generalize statement e.splice (e.before (first :: others)) = r at hstatement
    generalize statement e.splice (e.after (first :: others)) = r' at hstatement
    cases hstatement with
    | ok stmt part₁ h h' => exact .cons stmt (program_continues part₁)
    | error h => exact .error fun hends => by rw [h hends]; rfl
termination_by (e.before part).length

/-- The statements of the text come in front of those that are read behind it. -/
theorem program_after {stmts : List Stmt} (h : program e.splice (e.before part) = (stmts, none)) :
    program e.splice (e.after part) =
      (Stmt.allRelocate e.place stmts ++ (program e.splice (e.closing :: e.more)).1,
        (program e.splice (e.closing :: e.more)).2) := by
  have hcontinues := program_continues (e := e) part
  rw [h] at hcontinues
  clear h
  generalize program e.splice (e.after part) = result at hcontinues
  generalize hprogram : (stmts, (none : Option Diagnostic)) = read at hcontinues
  induction hcontinues generalizing stmts with
  | finish =>
    obtain ⟨rfl, -⟩ := Prod.mk.inj hprogram
    rfl
  | error => cases hprogram
  | cons first _ ih =>
    obtain ⟨rfl, rfl⟩ := Prod.mk.inj hprogram
    obtain ⟨rfl, rfl⟩ := Prod.mk.inj (ih rfl)
    rfl

/-- The statements and the problem of a moved text. -/
theorem program_relocate (hends : e.Ends) (part : List Token.Inner) :
    program e.splice (e.after part) =
      (Stmt.allRelocate e.place (program e.splice (e.before part)).1,
        (program e.splice (e.before part)).2.map (Diagnostic.relocate e.place)) := by
  have hcontinues := program_continues (e := e) part
  generalize program e.splice (e.after part) = result at hcontinues
  generalize program e.splice (e.before part) = read at hcontinues
  induction hcontinues with
  | finish =>
    refine program_finish ?_
    rw [front, List.headD_cons, hends.1]
    exact e.finishes
  | error h => exact h hends
  | cons first _ ih =>
    obtain ⟨rfl, rfl⟩ := Prod.mk.inj ih
    rfl

/-- An expression that is a moved text of its own. -/
theorem standalone_relocate (hends : e.Ends) (part : List Token.Inner) :
    standalone e.splice (e.after part) =
      relocateOutcome e.place (Expr.relocate e.place) (standalone e.splice (e.before part)) := by
  have hexpression := expression_follows (e := e) true part
  rw [standalone, standalone]
  generalize expression e.splice true (e.before part) = r at hexpression
  generalize expression e.splice true (e.after part) = r' at hexpression
  cases hexpression with
  | ok value rest h h' =>
    dsimp only [bind, Except.bind]
    rw [front_after hends, Token.isFinish_relocate]
    split <;> rfl
  | error h =>
    rw [h hends]
    rfl

end Exchange

end Animatic.Script
