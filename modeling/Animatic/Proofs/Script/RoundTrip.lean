import Animatic.Proofs.Script.Expressions
import Animatic.Script.Basic

/-!
# Printed scripts are read back

Printing a script and reading the tokens gives the same script, up to positions.

* `Stmt.Printable.reads`: statements, in front of anything that ends them.
* `statements_programKinds`: programs.
-/

namespace Animatic.Script

variable {splice : Position → List Char → Except Diagnostic (List Part)} {line : Nat}

/-! ## Where statements end -/

/-- Whether a statement ends in front of a token of this kind, whatever it is. -/
def Token.Kind.closes : Token.Kind → Bool
  | .mark .semicolon | .mark .rightBrace | .finish => true
  | _ => false

/-- Every statement in front of these tokens ends there. -/
def Closes (tokens : List Token) : Prop := (front tokens).kind.closes = true

private theorem closes_cons {kind : Token.Kind} {token : Token} {rest : List Token}
    (h : token.kind = kind) (hcloses : kind.closes = true) : Closes (token :: rest) := by
  rw [Closes]
  exact h ▸ hcloses

private theorem Closes.ends {tokens : List Token} (h : Closes tokens) : Ends tokens := by
  rw [Closes] at h
  rw [Ends]
  cases hkind : (front tokens).kind with
  | mark mark => rw [hkind] at h; cases mark <;> first | rfl | cases h
  | _ => rfl

private theorem Closes.not_assign {tokens : List Token} (h : Closes tokens) :
    ¬ startsWith .assign tokens := fun hassign => by
  rw [Closes, hassign] at h
  cases h

private theorem Closes.not_opens {tokens : List Token} (h : Closes tokens) : ¬ Opens tokens := by
  rw [Closes] at h
  rw [Opens]
  cases hkind : (front tokens).kind with
  | mark mark => rw [hkind] at h; cases mark <;> first | exact Bool.noConfusion | cases h
  | finish => exact Bool.noConfusion
  | _ => rw [hkind] at h; cases h

private theorem Closes.not_returnsValue {tokens : List Token} (h : Closes tokens) (line : Nat) :
    returnsValue line tokens = false := by
  rw [Closes] at h
  rw [returnsValue, Token.isMark, Token.isMark, Token.isFinish]
  cases hkind : (front tokens).kind with
  | mark mark =>
    rw [hkind] at h
    cases mark <;> first | exact Bool.and_false _ | cases h
  | finish => exact Bool.and_false _
  | _ => rw [hkind] at h; cases h

/-! ## Bodies and programs -/

private theorem begins_of_name {name : String} {token : Token} {rest : List Token}
    (h : token.kind = .name name) : Begins (token :: rest) :=
  ⟨not_startsWith_of_name h, not_startsWith_of_name h, fun hfinish =>
    Token.Kind.noConfusion (h.symm.trans hfinish)⟩

/-- Tokens are read as a statement in front of anything that ends it. -/
def ReadsStatement (splice : Position → List Char → Except Diagnostic (List Part)) (line : Nat)
    (stmt : Stmt) : Prop :=
  ∀ tokens rest, Written line stmt.kinds tokens → Closes rest →
    Begins (tokens ++ rest) ∧ ∃ stmt', stmt'.unplaced = stmt.unplaced ∧
      (statement splice (tokens ++ rest)).outcome = .ok (stmt', rest)

/-- The statements of a body. -/
def bodyListing (splice : Position → List Char → Except Diagnostic (List Part)) :
    Listing Stmt Stmt (Except Diagnostic (List Stmt × List Token)) where
  read _ tokens := (blockBody splice tokens).outcome
  result stmts rest := .ok (stmts, rest)
  mark := .semicolon
  close := .mark .rightBrace
  isNamed _ := false
  view := Stmt.unplaced
  kinds := Stmt.kinds

/-- The statements of a program; what stands behind its end is not read. -/
def programListing (splice : Position → List Char → Except Diagnostic (List Part)) :
    Listing Stmt Stmt (List Stmt × Option Diagnostic) where
  read _ tokens := program splice tokens
  result stmts _ := (stmts, none)
  mark := .semicolon
  close := .finish
  isNamed _ := false
  view := Stmt.unplaced
  kinds := Stmt.kinds

private theorem readsItem_body {stmt : Stmt} (h : ReadsStatement splice line stmt) :
    (bodyListing splice).ReadsItem line stmt where
  last := by
    intro seen tokens token rest _ hwritten hclose
    obtain ⟨hbegins, stmt', hstmt, hread⟩ :=
      h tokens (token :: rest) hwritten (closes_cons hclose rfl)
    exact ⟨stmt', hstmt, outcome_blockBody_cons hbegins hread (outcome_blockBody_nil hclose)⟩
  more := by
    intro seen tokens token rest others rest₁ _ hwritten hsemicolon hothers
    obtain ⟨hbegins, stmt', hstmt, hread⟩ :=
      h tokens (token :: rest) hwritten (closes_cons hsemicolon rfl)
    exact ⟨stmt', hstmt, outcome_blockBody_cons hbegins hread
      ((outcome_blockBody_semicolon hsemicolon).trans hothers)⟩

private theorem readsItem_program {stmt : Stmt} (h : ReadsStatement splice line stmt) :
    (programListing splice).ReadsItem line stmt where
  last := by
    intro seen tokens token rest _ hwritten hclose
    obtain ⟨hbegins, stmt', hstmt, hread⟩ :=
      h tokens (token :: rest) hwritten (closes_cons hclose rfl)
    exact ⟨stmt', hstmt, program_cons hbegins.1 hbegins.2.2 hread (program_finish hclose)⟩
  more := by
    intro seen tokens token rest others rest₁ _ hwritten hsemicolon hothers
    obtain ⟨hbegins, stmt', hstmt, hread⟩ :=
      h tokens (token :: rest) hwritten (closes_cons hsemicolon rfl)
    exact ⟨stmt', hstmt, program_cons hbegins.1 hbegins.2.2 hread ((program_semicolon hsemicolon).trans hothers)⟩

private theorem outcome_block_written {body : List Stmt} {tokens : List Token}
    (hbody : ∀ stmt ∈ body, ReadsStatement splice line stmt)
    (hwritten : Written line (.mark .leftBrace ::
      (separated .semicolon (Stmt.allKinds body) ++ [.mark .rightBrace])) tokens)
    (rest : List Token) :
    ∃ body', Stmt.allUnplaced body' = Stmt.allUnplaced body ∧
      (block splice (tokens ++ rest)).outcome = .ok (body', rest) := by
  obtain ⟨opening, behind, rfl, hopening, -, hbehind⟩ := hwritten.cons
  obtain ⟨inner, closing, rfl, hinner, hclosing⟩ := hbehind.snoc
  rw [Stmt.allKinds_eq] at hinner
  simp only [Stmt.allUnplaced_eq]
  obtain ⟨body', hbody', hread⟩ :=
    (bodyListing splice).reads_unnamed line (fun _ _ _ h => outcome_blockBody_nil h)
      (fun stmt hmem => readsItem_body (hbody stmt hmem)) hinner hclosing (fun _ => rfl) rest
  refine ⟨body', hbody', ?_⟩
  rw [List.cons_append, List.append_assoc, List.singleton_append]
  exact outcome_block hopening hread

/-! ## Statements -/

private theorem isTarget_unplaced (value : Expr) : value.unplaced.isTarget = value.isTarget := by
  cases value <;> rfl

private theorem ReadsExpression.parens {kinds : List Token.Kind} {value : Expr}
    (h : ReadsExpression splice line kinds value) :
    ReadsExpression splice line (Script.inParens kinds) value :=
  (Reads.of_operand h.inParens 1).expression (Nat.le_refl 1)

/-- A count in parentheses is read up to the brace behind it, which opens no constructor. -/
private theorem outcome_count {count : Expr} (h : count.Printable) {tokens : List Token}
    {brace : Token} (hwritten : Written line (inParens count.kinds) tokens)
    (hbrace : brace.kind = .mark .leftBrace) (rest : List Token) :
    ∃ count', count'.unplaced = count.unplaced ∧
      (expression splice false (tokens ++ brace :: rest)).outcome = .ok (count', brace :: rest) := by
  have hfront : ∀ mark, startsWith mark (brace :: rest) → mark = .leftBrace := fun mark hmark =>
    Token.Kind.mark.inj (hmark.symm.trans hbrace)
  have hstop : ¬ Extends false (brace :: rest) := by
    rintro (hmark | hmark | ⟨hfalse, -⟩)
    · exact Mark.noConfusion (hfront _ hmark)
    · exact Mark.noConfusion (hfront _ hmark)
    · exact Bool.noConfusion hfalse
  have hnone : ∀ op, (front (brace :: rest)).binaryOp? = some op → op.precedence < 1 := by
    intro op hop
    rw [front, List.headD_cons, Token.binaryOp?, hbrace] at hop
    cases hop
  obtain ⟨count', hcount, hread⟩ := h.readsExpression.primary hwritten (brace :: rest)
  have hpostfixed := outcome_postfixed hread
  rw [outcome_suffixes_stop hstop] at hpostfixed
  obtain ⟨opening, inner, closing, rfl, hopening, -, -⟩ := hwritten.inParens
  have hunary := (outcome_unary_none (opens_of_postfixed hpostfixed).2).trans hpostfixed
  refine ⟨count', hcount, ?_⟩
  rw [outcome_expression]
  exact (outcome_binary hunary).trans (outcome_operators_stop hnone)

/-- A statement that begins with a parenthesis begins with no name. -/
private theorem opening_not_name {kinds : List Token.Kind} {tokens : List Token}
    (h : Written line (inParens kinds) tokens) :
    ∃ opening inner, tokens = opening :: inner ∧ ∀ word, opening.kind ≠ .name word := by
  obtain ⟨opening, inner, closing, rfl, hopening, -, -⟩ := h.inParens
  refine ⟨opening, inner ++ [closing], rfl, ?_⟩
  intro word hword
  exact Token.Kind.noConfusion (hopening.symm.trans hword)

section

variable {position : Position} {target value count : Expr} {body : List Stmt}

private theorem readsStatement_assign (htarget : target.isTarget = true)
    (hprintable : target.Printable) (hvalue : value.Printable) :
    ReadsStatement splice line (.assign position target value) := by
  intro tokens rest hwritten hrest
  obtain ⟨first, behind, rfl, hfirst, hbehind⟩ := Written.append hwritten
  obtain ⟨assign, second, rfl, hassign, -, hsecond⟩ := hbehind.cons
  obtain ⟨target', htarget', hread⟩ := hprintable.readsExpression.parens first
    (assign :: (second ++ rest)) hfirst (ends_cons hassign rfl)
  obtain ⟨value', hvalue', hreadValue⟩ := hvalue.readsExpression second rest hsecond hrest.ends
  obtain ⟨opening, inner, rfl, hname⟩ := opening_not_name hfirst
  have hassigned : target'.isTarget = true := by
    rw [← isTarget_unplaced, htarget', isTarget_unplaced, htarget]
  rw [List.append_assoc, List.cons_append]
  refine ⟨(opens_of_expression hread).begins, .assign opening.position target' value',
    by rw [Stmt.unplaced, htarget', hvalue', Stmt.unplaced], ?_⟩
  exact outcome_statement_assign (bare_of_not_name hname) hread hassign hassigned hreadValue

private theorem readsStatement_expr (hvalue : value.Printable) :
    ReadsStatement splice line (.expr position value) := by
  intro tokens rest hwritten hrest
  obtain ⟨value', hvalue', hread⟩ :=
    hvalue.readsExpression.parens tokens rest hwritten hrest.ends
  obtain ⟨opening, inner, rfl, hname⟩ := opening_not_name hwritten
  refine ⟨(opens_of_expression hread).begins, .expr opening.position value',
    by rw [Stmt.unplaced, hvalue', Stmt.unplaced], ?_⟩
  exact outcome_statement_expr (bare_of_not_name hname) hread hrest.not_assign

private theorem readsStatement_wait (hseconds : value.Printable) :
    ReadsStatement splice line (.wait position value) := by
  intro tokens rest hwritten hrest
  obtain ⟨word, inner, rfl, hword, -, hinner⟩ := Written.cons hwritten
  obtain ⟨seconds', hseconds', hread⟩ := hseconds.readsExpression inner rest hinner hrest.ends
  refine ⟨begins_of_name hword, .wait word.position seconds',
    by rw [Stmt.unplaced, hseconds', Stmt.unplaced], ?_⟩
  exact outcome_statement_wait hword hread

private theorem readsStatement_loop (hcount : count.Printable)
    (hbody : ∀ stmt ∈ body, ReadsStatement splice line stmt) :
    ReadsStatement splice line (.loop position count body) := by
  intro tokens rest hwritten hrest
  obtain ⟨word, behind, rfl, hword, -, hbehind⟩ := Written.cons hwritten
  obtain ⟨first, second, rfl, hfirst, hsecond⟩ := hbehind.append
  obtain ⟨body', hbody', hblock⟩ := outcome_block_written hbody hsecond rest
  obtain ⟨brace, inner, rfl, hbrace, -, -⟩ := hsecond.cons
  obtain ⟨count', hcount', hread⟩ := outcome_count hcount hfirst hbrace (inner ++ rest)
  refine ⟨begins_of_name hword, .loop word.position count' body',
    by rw [Stmt.unplaced, hcount', hbody', Stmt.unplaced], ?_⟩
  rw [List.cons_append, List.append_assoc]
  exact outcome_statement_loop hword hread hblock

private theorem readsStatement_define {name : String} {parameters : List String}
    (hbody : ∀ stmt ∈ body, ReadsStatement splice line stmt) :
    ReadsStatement splice line (.define position name parameters body) := by
  intro tokens rest hwritten hrest
  obtain ⟨word, behind, rfl, hword, -, hbehind⟩ := Written.cons hwritten
  obtain ⟨called, behind, rfl, hcalled, -, hbehind⟩ := hbehind.cons
  obtain ⟨first, second, rfl, hfirst, hsecond⟩ := hbehind.append
  obtain ⟨opening, inner, closing, rfl, hopening, hinner, hclosing⟩ := hfirst.inParens
  obtain ⟨body', hbody', hblock⟩ := outcome_block_written hbody hsecond rest
  have hparameters := outcome_parameters hinner hclosing (second ++ rest)
  refine ⟨begins_of_name hword, .define word.position name parameters body',
    by rw [Stmt.unplaced, hbody', Stmt.unplaced], ?_⟩
  have htokens : opening :: (inner ++ [closing]) ++ second ++ rest =
      opening :: (inner ++ closing :: (second ++ rest)) := by
    rw [List.append_assoc, List.cons_append, List.append_assoc, List.singleton_append]
  rw [List.cons_append, List.cons_append, htokens]
  exact outcome_statement_define hword hcalled hopening hparameters hblock

private theorem readsStatement_leave :
    ReadsStatement splice line (.leave position none) := by
  intro tokens rest hwritten hrest
  obtain ⟨word, rfl, hword⟩ := Written.single hwritten
  refine ⟨begins_of_name hword, .leave word.position none, rfl, ?_⟩
  exact outcome_statement_leave hword (hrest.not_returnsValue _)

private theorem readsStatement_leaveValue (hvalue : value.Printable) :
    ReadsStatement splice line (.leave position (some value)) := by
  intro tokens rest hwritten hrest
  obtain ⟨word, inner, rfl, hword, hline, hinner⟩ := Written.cons hwritten
  obtain ⟨value', hvalue', hread⟩ := hvalue.readsExpression inner rest hinner hrest.ends
  have hopens := opens_of_expression hread
  have hreturns : returnsValue word.position.line (inner ++ rest) = true := by
    rw [hline]
    refine returnsValue_of_opens hopens ?_
    cases inner with
    | nil => exact absurd hopens hrest.not_opens
    | cons token others => exact hinner.2 token List.mem_cons_self
  refine ⟨begins_of_name hword, .leave word.position (some value'),
    by rw [Stmt.unplaced, hvalue', Stmt.unplaced], ?_⟩
  exact outcome_statement_leave_value hword hreturns hread

end

/-- The tokens of a statement are read back. -/
theorem Stmt.Printable.reads {stmt : Stmt} (h : stmt.Printable) :
    ReadsStatement splice line stmt := by
  induction h with
  | assign htarget hprintable hvalue => exact readsStatement_assign htarget hprintable hvalue
  | expr hvalue => exact readsStatement_expr hvalue
  | wait hseconds => exact readsStatement_wait hseconds
  | loop hcount _ ih => exact readsStatement_loop hcount ih
  | define _ ih => exact readsStatement_define ih
  | leave => exact readsStatement_leave
  | leaveValue hvalue => exact readsStatement_leaveValue hvalue

/-! ## The end of the text -/

private theorem finish_not_mem_inParens {kinds : List Token.Kind}
    (h : Token.Kind.finish ∉ kinds) : Token.Kind.finish ∉ inParens kinds := by
  simp [inParens, h]

private theorem finish_not_mem_guarded {tightness least : Nat} {kinds : List Token.Kind}
    (h : Token.Kind.finish ∉ kinds) : Token.Kind.finish ∉ guarded tightness least kinds := by
  rw [guarded]
  split
  · exact finish_not_mem_inParens h
  · exact h

private theorem finish_not_mem_separated {ι : Type} {mark : Mark} {kinds : ι → List Token.Kind}
    {items : List ι} (h : ∀ item ∈ items, Token.Kind.finish ∉ kinds item) :
    Token.Kind.finish ∉ separated mark (items.map kinds) := by
  induction items with
  | nil => exact List.not_mem_nil
  | cons item rest ih =>
    rw [List.forall_mem_cons] at h
    cases rest with
    | nil => exact h.1
    | cons next rest =>
      have hrest := ih h.2
      rw [List.map_cons] at hrest
      rw [List.map_cons, List.map_cons, separated]
      simp [h.1, hrest]

private theorem finish_not_mem_arguments {arguments : List Argument}
    (h : ∀ argument ∈ arguments, Token.Kind.finish ∉ argument.value.kinds) :
    Token.Kind.finish ∉ inParens (separated .comma (Argument.allKinds arguments)) := by
  rw [Argument.allKinds_eq]
  refine finish_not_mem_inParens (finish_not_mem_separated fun argument hmem => ?_)
  cases argument with
  | positional value => exact h _ hmem
  | named name value =>
    have hvalue : Token.Kind.finish ∉ value.kinds := h _ hmem
    simp [Argument.kinds, hvalue]

private theorem Expr.Printable.finish_not_mem {value : Expr} (h : value.Printable) :
    Token.Kind.finish ∉ value.kinds := by
  induction h with
  | number | bool | text | name => simp [Expr.kinds]
  | array _ ih => simp [Expr.kinds, Expr.allKinds_eq, finish_not_mem_separated ih]
  | binary _ _ ihl ihr =>
    simp [Expr.kinds, finish_not_mem_guarded ihl, finish_not_mem_guarded ihr]
  | unary _ ih => simp [Expr.kinds, finish_not_mem_guarded ih]
  | member _ ih => simp [Expr.kinds, finish_not_mem_guarded ih]
  | call _ _ _ ih ihs =>
    simp [Expr.kinds, finish_not_mem_guarded ih, finish_not_mem_arguments ihs]
  | @construct _ _ _ properties _ _ _ _ iha ihp =>
    have hproperties : ∀ property ∈ properties, Token.Kind.finish ∉ property.kinds := by
      rintro ⟨name, value⟩ hmem
      have hvalue : Token.Kind.finish ∉ value.kinds := ihp _ hmem
      simp [PropertyInit.kinds, hvalue]
    simp [Expr.kinds, PropertyInit.allKinds_eq, finish_not_mem_arguments iha,
      finish_not_mem_separated hproperties]

private theorem Stmt.Printable.finish_not_mem {stmt : Stmt} (h : stmt.Printable) :
    Token.Kind.finish ∉ stmt.kinds := by
  induction h with
  | assign _ htarget hvalue =>
    simp [Stmt.kinds, finish_not_mem_inParens htarget.finish_not_mem, hvalue.finish_not_mem]
  | expr hvalue => exact finish_not_mem_inParens hvalue.finish_not_mem
  | wait hseconds => simp [Stmt.kinds, hseconds.finish_not_mem]
  | loop hcount _ ih =>
    simp [Stmt.kinds, Stmt.allKinds_eq, finish_not_mem_inParens hcount.finish_not_mem,
      finish_not_mem_separated ih]
  | @define _ _ parameters _ _ ih =>
    have hparameters : Token.Kind.finish ∉
        inParens (separated .comma (parameters.map fun name => [Token.Kind.name name])) :=
      finish_not_mem_inParens (finish_not_mem_separated fun _ _ => by simp)
    simp [Stmt.kinds, Stmt.allKinds_eq, hparameters, finish_not_mem_separated ih]
  | leave => simp [Stmt.kinds]
  | leaveValue hvalue => simp [Stmt.kinds, hvalue.finish_not_mem]

/-! ## Programs -/

/-- The tokens of statements, all on one line, with or without the end of the text behind them, are
read back as the same statements, and no problem is found. -/
theorem statements_programKinds {stmts : List Stmt} (hprintable : ∀ stmt ∈ stmts, stmt.Printable)
    {tokens : List Token} {ending : List Token.Kind} (hending : ending = [] ∨ ending = [.finish])
    (hkinds : tokens.map Token.kind = Stmt.programKinds stmts ++ ending)
    (hline : ∀ token ∈ tokens, token.position.line = line) :
    ∃ stmts', Stmt.allUnplaced stmts' = Stmt.allUnplaced stmts ∧
      (Reader.ofTokens tokens).statements = (stmts', ⟨[], none⟩) := by
  obtain ⟨first, last, rfl, hfirst, hlast⟩ := Written.append ⟨hkinds, hline⟩
  rw [Stmt.programKinds, Stmt.allKinds_eq] at hfirst
  have hopen : ∀ token ∈ first, token.kind ≠ .finish := by
    intro token hmem hfinish
    have hfree : Token.Kind.finish ∉ separated .semicolon (stmts.map Stmt.kinds) :=
      finish_not_mem_separated fun stmt hstmt => (hprintable stmt hstmt).finish_not_mem
    rw [← hfirst.1, ← hfinish] at hfree
    exact hfree (List.mem_map_of_mem hmem)
  have htokens : ∃ finish : Token, finish.kind = .finish ∧
      Reader.ofTokens (first ++ last) = ⟨first ++ [finish], none⟩ := by
    rcases hending with rfl | rfl
    · obtain rfl := hlast.nil
      rw [List.append_nil]
      exact ofTokens_of_not_mem hopen
    · obtain ⟨finish, rfl, hfinish⟩ := hlast.single
      exact ⟨finish, hfinish, ofTokens_of_finish hfinish⟩
  obtain ⟨finish, hfinish, hreader⟩ := htokens
  obtain ⟨stmts', hstmts', hread⟩ :=
    (programListing Script.splice).reads_unnamed line (fun _ _ _ h => program_finish h)
      (fun stmt hmem => readsItem_program (hprintable stmt hmem).reads) hfirst hfinish
      (fun _ => rfl) []
  have hprogram : program Script.splice (first ++ [finish]) = (stmts', none) := hread
  refine ⟨stmts', ?_, ?_⟩
  · rw [Stmt.allUnplaced_eq, Stmt.allUnplaced_eq]
    exact hstmts'
  · rw [hreader, Reader.statements]
    dsimp only
    rw [hprogram]

/-- A script with an assignment, a loop and a constructor: the difference on the right needs its
parentheses, the operator in front of `c` none. -/
def nestedScript : List Stmt :=
  [.assign .start (.member .start (.name .start "circle") "radius")
    (.binary .start .sub (.name .start "a")
      (.binary .start .sub (.name .start "b") (.unary .start .neg (.name .start "c")))),
   .loop .start (.name .start "count")
    [.expr .start (.construct .start "Add"
      [.positional (.bool .start true), .named "at" (.name .start "b")]
      [.mk "color" (.text .start "red")]),
     .leave .start none]]

/-- The kinds of the tokens that `nestedScript` is written with. -/
def nestedScriptKinds : List Token.Kind :=
  [.mark .leftParen, .name "circle", .mark .dot, .name "radius", .mark .rightParen, .mark .assign,
   .name "a", .mark .minus, .mark .leftParen, .name "b", .mark .minus, .mark .minus, .name "c",
   .mark .rightParen, .mark .semicolon,
   .name "repeat", .mark .leftParen, .name "count", .mark .rightParen, .mark .leftBrace,
   .mark .leftParen, .name "Add", .mark .leftParen, .name "true", .mark .comma, .name "at",
   .mark .colon, .name "b", .mark .rightParen, .mark .leftBrace, .literal .verbatim "color",
   .mark .colon, .literal .verbatim "red", .mark .rightBrace, .mark .rightParen, .mark .semicolon,
   .name "return", .mark .rightBrace]

private theorem nestedScript_printable : ∀ stmt ∈ nestedScript, stmt.Printable := by
  have plain {name : String} (htrue : name ≠ "true") (hfalse : name ≠ "false") :
      (Expr.name .start name).Printable := .name ⟨htrue, hfalse⟩
  rw [nestedScript, List.forall_mem_cons, List.forall_mem_singleton]
  constructor
  · refine .assign rfl (.member (plain (by decide) (by decide))) ?_
    refine .binary (plain (by decide) (by decide)) (.binary (plain (by decide) (by decide)) ?_)
    exact .unary (plain (by decide) (by decide))
  · refine .loop (plain (by decide) (by decide)) ?_
    rw [List.forall_mem_cons, List.forall_mem_singleton]
    refine ⟨.expr (.construct ⟨by decide, by decide⟩ ?_ ?_ ?_), .leave⟩
    · rw [List.forall_mem_cons, List.forall_mem_singleton]
      exact ⟨.bool, plain (by decide) (by decide)⟩
    · exact List.pairwise_pair.mpr fun h => Bool.noConfusion h
    · rw [List.forall_mem_singleton]
      exact .text

theorem statements_nestedScript :
    (∀ stmt ∈ nestedScript, stmt.Printable) ∧
      ∃ stmts', Stmt.allUnplaced stmts' = Stmt.allUnplaced nestedScript ∧
        (Reader.ofTokens (nestedScriptKinds.map fun kind => ⟨kind, "", .start⟩)).statements =
          (stmts', ⟨[], none⟩) := by
  have hline : ∀ token ∈ nestedScriptKinds.map fun kind => (⟨kind, "", .start⟩ : Token),
      token.position.line = 1 := by
    intro token hmem
    obtain ⟨kind, -, rfl⟩ := List.mem_map.mp hmem
    rfl
  exact ⟨nestedScript_printable,
    statements_programKinds nestedScript_printable (.inl rfl) rfl hline⟩

end Animatic.Script
