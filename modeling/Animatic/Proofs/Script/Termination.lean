import Mathlib
import Animatic.Proofs.Script.Following
import Animatic.Proofs.Script.Nesting

/-!
# Parsing comes to an end

With a budget that is large enough, a parser reads the statements of a script and ends as the script
does, and a literal is read at every depth of literals inside of it.

* `spliceWithin_eq`: a budget in proportion to a literal is enough for all literals inside of it.
* `visits_follow`: one in proportion to the tokens is enough for the statements of a script.
* `parsing_ends`: what the rules of the parser take, what the parser tries, and how it ends.
-/

namespace Animatic.Script.Parser

variable {α β : Type} {p : Parser} {stream tokens : List Token} {budget : Nat}

/-! ## Literals -/

private theorem mapM_mapError {f : α → Except Diagnostic β} {g : α → Except Halt β} {items : List α}
    (h : ∀ item ∈ items, g item = (f item).mapError .problem) :
    items.mapM g = (items.mapM f).mapError .problem := by
  induction items with
  | nil => rfl
  | cons item rest ih =>
    rw [List.forall_mem_cons] at h
    rw [List.mapM_cons, List.mapM_cons, h.1, ih h.2]
    cases f item with
    | error d => rfl
    | ok value => cases rest.mapM f <;> rfl

/-- A text has at most one token for each of its characters, and its end. -/
private theorem Cut.length_le {position : Position} {text : List Char}
    {diagnostics : List Diagnostic} (h : Cut position text tokens diagnostics) :
    tokens.length ≤ text.length + 1 := by
  induction h with
  | finish => exact Nat.succ_le_succ (Nat.zero_le _)
  | token _ _ _ _ _ ih =>
    simp only [List.length_append, List.length_cons]
    omega

/-- The tokens of a text end with its end. -/
private theorem ofTokens_ofText (position : Position) (text : List Char) :
    (Reader.ofTokens (TokenStream.ofText position text).tokens).tokens =
      (TokenStream.ofText position text).tokens := by
  obtain ⟨before, htokens, -⟩ := (TokenStream.ofText_faithful position text).ending
  rw [htokens, ofTokens_of_finish rfl]

/-- A parser has all of its tokens ahead at first. -/
private theorem new_faces (tokens : List Token) :
    Faces (Reader.ofTokens tokens).tokens true (new tokens) (Reader.ofTokens tokens).tokens :=
  ⟨new_standing tokens, rfl, rfl, rfl⟩

/-- An expression that takes up all of the tokens is read as the grammar reads it. -/
theorem result_standalone {splice : Position → List Char → Except Diagnostic (List Part)}
    {splice' : Position → List Char → Except Halt (List Part)}
    (hsplice : Splices splice splice' stream) (hp : Faces stream true p tokens)
    (hbudget : 10 * tokens.length + 5 ≤ budget) :
    result (standalone splice' budget) p = (Script.standalone splice tokens).mapError .problem := by
  have hmatches := expression_follows hsplice true hbudget p hp
  rw [result, standalone, EStateM.run_bind, Script.standalone]
  generalize (expression splice' budget).run p = read at hmatches ⊢
  generalize Script.expression splice true tokens = r at hmatches ⊢
  cases r with
  | error d =>
    cases hmatches with
    | error d q => rfl
  | ok reading =>
    cases hmatches with
    | @ok _ _ q ahead =>
      dsimp only [bind, Except.bind]
      rw [← ahead.peekAt_zero]
      change result (if (q.peekAt 0).isFinish = true then pure reading.value else throw _) q = _
      split <;> rfl

/-- A budget in proportion to a literal is enough for it and for all the literals inside of it. -/
theorem spliceWithin_eq {text : List Char} (hbudget : 10 * (text.length + 2) ≤ budget)
    (position : Position) :
    spliceWithin budget position text = (Script.splice position text).mapError .problem := by
  induction budget generalizing text position with
  | zero => omega
  | succ budget ih =>
    rw [spliceWithin, splice_eq]
    refine mapM_mapError fun span hmem => ?_
    cases span with
    | plain run => rfl
    | braced content =>
      have hcontent := Literal.length_lt_of_braced_mem hmem
      have hlength := Cut.length_le (TokenStream.ofText_faithful position content).cut
      have hsplice : Splices Script.splice (spliceWithin budget)
          (TokenStream.ofText position content).tokens := by
        intro token htoken inner hkind
        have hinner := TokenStream.length_lt_of_literal_mem htoken hkind
        exact ih (by omega) token.position
      have hp := new_faces (TokenStream.ofText position content).tokens
      rw [ofTokens_ofText] at hp
      dsimp only [partOf, Expr.ofTokens]
      rw [result_standalone hsplice hp (by omega)]
      cases Script.standalone Script.splice (TokenStream.ofText position content).tokens <;> rfl

/-! ## Scripts -/

/-- How a reading ends that a problem ends, or none. -/
def Ending.ofProblem : Option Diagnostic → Ending
  | none => .finished
  | some d => .halted (.problem d)

private theorem run_skipSemicolons (h : tokens.length < budget)
    (hp : Faces stream true p tokens) :
    ∃ q, (skipSemicolons budget).run p = .ok () q ∧
      Faces stream true q (Script.skipSemicolons tokens) := by
  have hle := Nat.lt_succ_of_le (length_skipSemicolons_le tokens)
  have hmatches := skipSemicolons_follows h (follows_pure () hle) p hp
  rw [bind_pure_unit] at hmatches
  generalize (skipSemicolons budget).run p = read at hmatches ⊢
  cases hmatches with
  | ok ahead => exact ⟨_, rfl, ahead⟩

/-- A parser reads the statements that the grammar reads and ends with the problem that ends them,
if one does. The budget that is left for a literal is still enough behind the last statement. -/
theorem visits_follow {splice : Position → List Char → Except Diagnostic (List Part)} {enough : Nat}
    (hsplice : ∀ budget ≥ enough, Splices splice (spliceWithin budget) stream)
    (hp : Faces stream true p tokens) (hbudget : enough + 10 * tokens.length + 7 ≤ budget) :
    parse budget p =
      ((program splice tokens).1, .ofProblem (program splice tokens).2) := by
  induction budget generalizing p tokens with
  | zero => omega
  | succ budget ih =>
    have hle := length_skipSemicolons_le tokens
    have hroom : tokens.length < budget := by omega
    obtain ⟨q, hrun, hq⟩ := run_skipSemicolons hroom hp
    rw [program_eq, programOutcome, parse, visits, hrun]
    dsimp only
    rw [hq.peekAt_zero]
    split
    · rfl
    have hstatement : 10 * (Script.skipSemicolons tokens).length + 6 ≤ budget := by omega
    have hmatches := statement_follows (hsplice budget (by omega)) hstatement q hq
    have hpasses : ∀ first r, (statement (spliceWithin budget) budget).run q = .ok first r →
        Passes 1 q r := (rules_advance (spliceWithin budget) budget).statement q hq.standing
    generalize (statement (spliceWithin budget) budget).run q = read at hmatches hpasses ⊢
    generalize hread : (Script.statement splice (Script.skipSemicolons tokens)).outcome = outcome
      at hmatches ⊢
    cases hmatches with
    | error d r => rfl
    | @ok first rest r ahead =>
      have hmoved : r.place ≠ q.place := Nat.ne_of_gt (hpasses first r rfl).place
      obtain ⟨hshorter, -⟩ := Read.eq_ok hread
      have hothers := ih ahead (by omega)
      rw [parse] at hothers
      dsimp only at hothers ⊢
      rw [if_neg hmoved]
      obtain ⟨hstmts, hending⟩ := Prod.mk.inj hothers
      simp only [List.filterMap_cons, hstmts, hending]

private theorem exists_longest (stream : List Token) : ∃ longest, ∀ token ∈ stream, ∀ content,
    token.kind = .literal .expressions content → content.toList.length ≤ longest := by
  induction stream with
  | nil => exact ⟨0, nofun⟩
  | cons token rest ih =>
    obtain ⟨longest, hrest⟩ := ih
    obtain ⟨kind, text, position⟩ := token
    cases kind with
    | literal style content =>
      refine ⟨max longest content.toList.length, ?_⟩
      rintro other (_ | ⟨_, hmem⟩) inner hkind
      · obtain ⟨-, rfl⟩ := Token.Kind.literal.inj hkind
        exact Nat.le_max_right _ _
      · exact Nat.le_trans (hrest other hmem inner hkind) (Nat.le_max_left _ _)
    | _ =>
      refine ⟨longest, ?_⟩
      rintro other (_ | ⟨_, hmem⟩) inner hkind
      · cases hkind
      · exact hrest other hmem inner hkind

/-- For any tokens and any budget: what a rule of the parser reads takes at least one token, never
the last one, and leaves the mode as it was; only what stands behind an operand may take none. The
statements are tried one behind the other, so none is tried twice, and the parser is never stuck.
From some budget on, the parser reads the statements of the script and ends as the script does, and
every literal is read with all the literals inside of it: its spans are shorter than itself. -/
theorem parsing_ends (tokens : List Token) :
    (new tokens).Standing ∧ (∀ splice budget, RulesAdvance splice budget) ∧
    (∀ budget, InOrder (new tokens) (visits budget (new tokens)).1 ∧
      ∀ position, (visits budget (new tokens)).2 ≠ .stuck position) ∧
    (∃ enough, ∀ budget ≥ enough, parse budget (new tokens) =
      ((Reader.ofTokens tokens).statements.1,
        .ofProblem (Reader.ofTokens tokens).statements.2.problem)) ∧
    ∀ position text,
      (∀ content, .braced content ∈ Literal.spans text → content.length < text.length) ∧
      ∃ enough, ∀ budget ≥ enough,
        spliceWithin budget position text = (Script.splice position text).mapError .problem := by
  have hstanding := new_standing tokens
  refine ⟨hstanding, rules_advance, fun budget => visits_ordered budget hstanding, ?_,
    fun position text => ⟨fun content => Literal.length_lt_of_braced_mem,
      10 * (text.length + 2), fun budget hbudget => spliceWithin_eq hbudget position⟩⟩
  obtain ⟨longest, hlongest⟩ := exists_longest (Reader.ofTokens tokens).tokens
  have hsplice : ∀ budget ≥ 10 * (longest + 2),
      Splices Script.splice (spliceWithin budget) (Reader.ofTokens tokens).tokens := by
    intro budget hbudget token htoken content hkind
    have hlength := hlongest token htoken content hkind
    exact spliceWithin_eq (by omega) token.position
  refine ⟨10 * (longest + 2) + 10 * (Reader.ofTokens tokens).tokens.length + 7,
    fun budget hbudget => ?_⟩
  rw [statements_ofTokens]
  exact visits_follow hsplice (new_faces tokens) hbudget

/-- The tokens of `repeat n { f() }; n {}`: the first brace opens a body, the second a constructor. -/
def repeatTokens : List Token :=
  [.name "repeat", .name "n", .mark .leftBrace, .name "f", .mark .leftParen, .mark .rightParen,
    .mark .rightBrace, .mark .semicolon, .name "n", .mark .leftBrace, .mark .rightBrace].map
    (⟨·, "", .start⟩)

theorem parsing_ends_repeatTokens : ∃ enough, ∀ budget ≥ enough,
    parse budget (new repeatTokens) =
      ([.loop .start (.name .start "n") [.expr .start (.call .start (.name .start "f") [])],
        .expr .start (.construct .start "n" [] [])], .finished) := by
  have hread : (Reader.ofTokens repeatTokens).statements =
      ([.loop .start (.name .start "n") [.expr .start (.call .start (.name .start "f") [])],
        .expr .start (.construct .start "n" [] [])], ⟨[], none⟩) := by cbv
  obtain ⟨-, -, -, ⟨enough, hends⟩, -⟩ := parsing_ends repeatTokens
  rw [hread] at hends
  exact ⟨enough, hends⟩

end Animatic.Script.Parser
