import Mathlib
import Animatic.Proofs.Script.Standing

/-!
# Where a reading stops

When a problem ends the reading of a script, the statements in front of it are those of a script
that ends there, and reading on gives nothing.

* `program_stops`: the statements in front of a problem, read from the tokens in front of it.
* `splice_syntactic`: a problem inside of a literal is one of syntax too.
* `statements_stop`: what is left of a reading that a problem ends.
-/

namespace Animatic.Script

variable {α β : Type}

/-! ## Programs -/

/-- A program that a problem ends is one without a problem where the tokens end in front of it. -/
theorem program_stops {splice : Position → List Char → Except Diagnostic (List Part)}
    (hsplice : ∀ position text d, splice position text = .error d → d.problem.kind = .syntactic)
    (tokens : List Token) {stmts : List Stmt} {d : Diagnostic}
    (h : program splice tokens = (stmts, some d)) :
    d.problem.kind = .syntactic ∧ ∃ taken rest, tokens = taken ++ rest ∧
      (front rest).isFinish = false ∧ ∀ short, (front short).isFinish = true →
        program splice (taken ++ short) = (stmts, none) := by
  have hle := length_skipSemicolons_le tokens
  obtain ⟨semicolons, hsemicolons, hall⟩ := exists_semicolons tokens
  rw [program_eq, programOutcome] at h
  split at h
  · cases (Prod.mk.inj h).2
  rename_i hfinish
  cases hread : (statement splice (skipSemicolons tokens)).outcome with
  | error problem =>
    rw [hread] at h
    obtain ⟨rfl, hproblem⟩ := Prod.mk.inj h
    obtain rfl := Option.some.inj hproblem
    refine ⟨(statement_stands hsplice _).2 _ hread, semicolons, skipSemicolons tokens, hsemicolons,
      Bool.eq_false_iff.mpr hfinish, fun short hshort => ?_⟩
    rw [program_semicolons hall, program_finish (isFinish_iff.mp hshort)]
  | ok reading =>
    obtain ⟨first, rest₁⟩ := reading
    rw [hread] at h
    obtain ⟨rfl, hproblem⟩ := Prod.mk.inj h
    obtain ⟨h₁, -⟩ := Read.eq_ok hread
    obtain ⟨hkind, more, rest, rfl, hrest, hothers⟩ :=
      program_stops hsplice rest₁ (Prod.ext rfl hproblem)
    refine ⟨hkind, ?_⟩
    obtain ⟨token, taken, hinner, hfirst⟩ :=
      ((statement_stands hsplice _).1 _ _ hread).exists_token h₁
    have hstarts := not_startsWith_skipSemicolons tokens
    rw [hinner] at hsemicolons hstarts hfinish
    refine ⟨semicolons ++ token :: (taken ++ more), rest, by rw [hsemicolons]; simp, hrest,
      fun short hshort => ?_⟩
    -- The first statement stands in front of what is taken behind it and an early end.
    rw [List.append_assoc, program_semicolons hall, List.cons_append, List.append_assoc]
    have hcut : Curtails (more ++ short) (more ++ rest) := .prepend more (.finish rest hshort)
    exact program_cons hstarts (fun h => hfinish (isFinish_iff.mpr h)) (hfirst _ hcut)
      (hothers short hshort)
termination_by tokens.length
decreasing_by omega

/-! ## Expressions in literals -/

/-- What keeps an expression from taking up all of the tokens is a syntax problem. -/
theorem standalone_syntactic {splice : Position → List Char → Except Diagnostic (List Part)}
    (hsplice : ∀ position text d, splice position text = .error d → d.problem.kind = .syntactic)
    {tokens : List Token} {d : Diagnostic} (h : standalone splice tokens = .error d) :
    d.problem.kind = .syntactic := by
  have hexpression := expression_stands hsplice true tokens
  rw [standalone] at h
  generalize expression splice true tokens = r at hexpression h
  cases r with
  | error other =>
    obtain rfl := Except.error.inj h
    exact hexpression.2 _ rfl
  | ok reading =>
    dsimp only [bind, Except.bind] at h
    split at h
    · cases h
    · obtain rfl := Except.error.inj h
      rfl

/-- What ends the reading of a literal with expressions in braces is a syntax problem. -/
theorem splice_syntactic (position : Position) (text : List Char) {d : Diagnostic}
    (h : splice position text = .error d) : d.problem.kind = .syntactic := by
  suffices hwithin : ∀ depth position text d, spliceWithin depth position text = .error d →
      d.problem.kind = .syntactic from hwithin _ _ _ _ h
  intro depth
  induction depth with
  | zero => nofun
  | succ depth ih =>
    intro position text d h
    obtain ⟨-, span, -, -, -, hspan⟩ := mapM_eq_error h
    cases span with
    | plain run => cases hspan
    | braced content =>
      dsimp only at hspan
      generalize hread : standalone _ (TokenStream.ofText position content).tokens = r at hspan
      cases r with
      | ok value => cases hspan
      | error other =>
        obtain rfl := Except.error.inj hspan
        exact standalone_syntactic ih hread

/-! ## Readers -/

/-- When a problem ends the reading of a stream of tokens, then the statements that have been read
are those of a part in front that is read without a problem, the problem is one of syntax, and any
further reading gives no statement and keeps the problem. -/
theorem statements_stop {tokens : List Token}
    (hfinish : ∀ token ∈ tokens.dropLast, token.isFinish = false) {d : Diagnostic}
    (hproblem : (Reader.ofTokens tokens).statements.2.problem = some d) :
    (∃ part, part <+: tokens ∧
      (Reader.ofTokens part).statements.1 = (Reader.ofTokens tokens).statements.1 ∧
      (Reader.ofTokens part).statements.2.problem = none) ∧
    d.problem.kind = .syntactic ∧
    ∀ calls, Reader.statements
        ((fun reader => reader.statements.2)^[calls] (Reader.ofTokens tokens).statements.2) =
      ([], (Reader.ofTokens tokens).statements.2) := by
  have hkept : (Reader.ofTokens tokens).statements.2.statements =
      ([], (Reader.ofTokens tokens).statements.2) := by
    rw [Reader.statements, hproblem]
  have hprogram := statements_ofTokens tokens
  rw [hprogram] at hproblem
  obtain ⟨hkind, taken, rest, hsplit, hrest, hstops⟩ :=
    program_stops (fun _ _ _ => splice_syntactic _ _) _ (Prod.ext rfl hproblem)
  have hnonempty : rest ≠ [] := by
    rintro rfl
    cases hrest
  have hbefore : taken <+: (Reader.ofTokens tokens).tokens.dropLast := by
    rw [hsplit, List.dropLast_append_of_ne_nil hnonempty]
    exact List.prefix_append _ _
  have hinner : ∀ token ∈ taken, token.kind ≠ .finish := fun token hmem h => by
    have hnot := ofTokens_dropLast hfinish token (hbefore.subset hmem)
    rw [isFinish_iff.mpr h] at hnot
    cases hnot
  obtain ⟨finish, hend, hpart⟩ := ofTokens_of_not_mem hinner
  have hread := hstops [finish] (isFinish_iff.mpr hend)
  refine ⟨⟨taken, hbefore.trans (prefixed_dropLast_ofTokens tokens), ?_, ?_⟩, hkind,
    fun calls => ?_⟩
  · rw [statements_ofTokens, hpart, hread, hprogram]
  · rw [statements_ofTokens, hpart, hread]
  · rw [Function.iterate_fixed (congrArg Prod.snd hkept), hkept]

/-- The tokens of `wait 1; a.b = 2 return )`, all on one line. -/
def brokenTokens : List Token :=
  [.name "wait", .number 1, .mark .semicolon, .name "a", .mark .dot, .name "b", .mark .assign,
    .number 2, .name "return", .mark .rightParen].map (⟨·, "", .start⟩)

theorem statements_stop_brokenTokens :
    (∀ token ∈ brokenTokens.dropLast, token.isFinish = false) ∧
      (Reader.ofTokens brokenTokens).statements.2.problem = some ⟨.unexpected "", .start⟩ ∧
      (∃ part, part <+: brokenTokens ∧
        (Reader.ofTokens part).statements =
          ([.wait .start (.number .start 1),
            .assign .start (.member .start (.name .start "a") "b") (.number .start 2)],
            ⟨[], none⟩)) ∧
      (Reader.ofTokens brokenTokens).statements.2.statements.1 = [] := by
  have hfinish : ∀ token ∈ brokenTokens.dropLast, token.isFinish = false := by decide
  have hproblem : (Reader.ofTokens brokenTokens).statements.2.problem =
      some ⟨.unexpected "", .start⟩ := by cbv
  have hread : (Reader.ofTokens brokenTokens).statements.1 =
      [.wait .start (.number .start 1),
        .assign .start (.member .start (.name .start "a") "b") (.number .start 2)] := by cbv
  obtain ⟨⟨part, hpart, hstmts, hnone⟩, -, hkept⟩ := statements_stop hfinish hproblem
  refine ⟨hfinish, hproblem, ⟨part, hpart, ?_⟩, congrArg Prod.fst (hkept 0)⟩
  rw [statements_ofTokens] at hstmts hnone ⊢
  exact Prod.ext (hstmts.trans hread) (congrArg (Reader.mk []) hnone)

end Animatic.Script
