import Mathlib.Data.List.Infix
import Animatic.Proofs.Script.Joining
import Animatic.Proofs.Script.Nesting

/-!
# Where problems in literals are placed

A span of a `$<…>` literal is read as though it stood where the literal begins. The opener of the
literal, the pieces in front of the span and its brace are not counted, at any depth, and so a problem
in a span is placed too early. Only if none of them brings a new line, and the span brings one in
front of the problem, does it make no difference.

* `FromLiteral`: a problem that ends a program and comes from a literal.
* `FailsIn`: the span, at any depth, in which a reading fails.
* `Complains`: a problem with a token of a text.
* `literal_problem_displaced`: where problems from literals are placed, and where they belong.
-/

namespace Animatic.Script

variable {position place : Position} {text lead inner : List Char} {d : Diagnostic}

/-! ## Positions in order -/

namespace Position

/-- Whether a position is in front of another one. -/
def Before (p q : Position) : Prop := p.line < q.line ∨ p.line = q.line ∧ p.column < q.column

variable {p q r : Position}

theorem Before.ne (h : p.Before q) : p ≠ q := by
  rintro rfl
  exact h.elim (Nat.lt_irrefl _) fun h => Nat.lt_irrefl _ h.2

theorem Before.trans (h : p.Before q) (h' : q.Before r) : p.Before r := by
  unfold Before at *
  omega

theorem before_next (p : Position) (c : Char) : p.Before (p.next c) := by
  unfold Before next
  split
  · exact .inl (Nat.lt_succ_self _)
  · exact .inr ⟨rfl, Nat.lt_succ_self _⟩

theorem before_advance (p : Position) (h : text ≠ []) : p.Before (p.advance text) := by
  induction text generalizing p with
  | nil => exact absurd rfl h
  | cons c rest ih =>
    rw [advance_cons]
    cases rest with
    | nil => exact before_next p c
    | cons other rest => exact (before_next p c).trans (ih _ (List.cons_ne_nil _ _))

/-- A position stays in front of another one behind a text, unless both are in one line and the text
brings a new one. -/
theorem Before.advance (h : p.Before q) (text : List Char) :
    (p.line = q.line ∧ '\n' ∈ text) ∧ p.advance text = q.advance text ∨
      ¬ (p.line = q.line ∧ '\n' ∈ text) ∧ (p.advance text).Before (q.advance text) := by
  induction text generalizing p q with
  | nil => exact .inr ⟨fun h => List.not_mem_nil h.2, h⟩
  | cons c rest ih =>
    rw [advance_cons, advance_cons, List.mem_cons]
    by_cases hc : c = '\n'
    · subst hc
      by_cases hline : p.line = q.line
      · refine .inl ⟨⟨hline, .inl rfl⟩, ?_⟩
        rw [next, next, if_pos rfl, if_pos rfl, hline]
      · have hlt : p.line < q.line := h.resolve_right fun h => hline h.1
        have hnext : (p.next '\n').Before (q.next '\n') := .inl (Nat.succ_lt_succ hlt)
        rcases ih hnext with ⟨⟨hsame, -⟩, -⟩ | ⟨-, hbefore⟩
        · exact absurd (Nat.succ.inj hsame) hline
        · exact .inr ⟨fun h => hline h.1, hbefore⟩
    · have hnext : (p.next c).Before (q.next c) := by
        rw [next, next, if_neg hc, if_neg hc]
        exact h.imp_right (.imp_right Nat.succ_lt_succ)
      have hlines : (p.next c).line = (q.next c).line ↔ p.line = q.line := by
        rw [next, next, if_neg hc, if_neg hc]
      have hmem : '\n' = c ∨ '\n' ∈ rest ↔ '\n' ∈ rest := or_iff_right fun h => hc h.symm
      rw [hmem, ← hlines]
      exact ih hnext

end Position

/-! ## Spans in which a reading fails -/

/-- The span of a text's `$<…>` literals, at any depth, in which reading the text fails, with the
place that it is read at and the text that stands in front of it. -/
inductive FailsIn (d : Diagnostic) : Position → List Char → Position → List Char → List Char → Prop
    where
  /-- The first literal that cannot be read, and the first of its spans that is no expression. -/
  | span {position : Position} {text lead inner : List Char} {token : Token} {rest : List Token}
      {content : String} {before after : List Literal.Span}
      (hpassed : Passed splice (TokenStream.ofText position text).tokens (token :: rest))
      (hkind : token.kind = .literal .expressions content)
      (hposition : token.position = position.advance lead)
      (htext : lead ++ '$' :: '<' :: content.toList <+: text)
      (hspans : Literal.spans content.toList = before ++ .braced inner :: after)
      (hread : ∀ span ∈ before, ∃ part, partOf token.position span = .ok part)
      (hfails : Expr.ofTokens (TokenStream.ofText token.position inner).tokens = .error d) :
      FailsIn d position text token.position
        (lead ++ '$' :: '<' :: (before.flatMap Literal.Span.source ++ ['\x7b'])) inner
  /-- A span inside a span. -/
  | within {position place place' : Position} {text lead lead' inner innermost : List Char}
      (houter : FailsIn d position text place lead inner)
      (hinner : FailsIn d place inner place' lead' innermost) :
      FailsIn d position text place' (lead ++ lead') innermost

namespace FailsIn

/-- A span stands in its text, with a brace behind it. -/
theorem stands (h : FailsIn d position text place lead inner) :
    lead ++ inner ++ ['\x7d'] <+: text := by
  induction h with
  | @span position text lead inner token rest content before after _ _ _ htext hspans =>
    have hcontent : content.toList = before.flatMap Literal.Span.source ++
        ('\x7b' :: inner ++ ['\x7d'] ++ after.flatMap Literal.Span.source) := by
      rw [← Literal.flatMap_source_spans content.toList, hspans, List.flatMap_append,
        List.flatMap_cons]
      rfl
    refine List.IsPrefix.trans ⟨after.flatMap Literal.Span.source, ?_⟩ htext
    rw [hcontent]
    simp
  | @within position place place' text lead lead' inner innermost _ _ ihouter ihinner =>
    refine List.IsPrefix.trans ?_ ((List.prefix_append (lead ++ inner) _).trans ihouter)
    rw [List.append_assoc lead, List.append_assoc lead]
    exact (List.prefix_append_right_inj lead).mpr ihinner

/-- The place that a span is read at is in front of where it stands. -/
theorem before (h : FailsIn d position text place lead inner) :
    place.Before (position.advance lead) := by
  induction h with
  | span _ _ hposition =>
    rw [Position.advance_append, hposition]
    exact Position.before_advance _ (List.cons_ne_nil _ _)
  | @within position place place' text lead lead' inner innermost _ _ ihouter ihinner =>
    rw [Position.advance_append]
    rcases ihouter.advance lead' with ⟨-, heq⟩ | ⟨-, hbefore⟩
    · exact heq ▸ ihinner
    · exact ihinner.trans hbefore

end FailsIn

/-! ## Problems in spans -/

/-- A problem with a token of a text that is read at a place. The token stands behind the text in
front of it, and the end of the text behind all of it. -/
structure Complains (d : Diagnostic) (place : Position) (text lead : List Char) (token : Token) :
    Prop where
  mem : token ∈ (TokenStream.ofText place text).tokens
  blamed : token.Blamed d
  reported : d.position = place.advance lead
  stands : lead ++ token.text.toList <+: text
  ending : token.kind = .finish → lead = text

/-- Behind tokens that can be taken there are others, the end at least. -/
private theorem front_mem {rest : List Token}
    (h : Passed splice (TokenStream.ofText position text).tokens rest) :
    front rest ∈ (TokenStream.ofText position text).tokens := by
  cases rest with
  | cons token rest => exact h.subset List.mem_cons_self
  | nil =>
    obtain ⟨taken, htaken, hinner⟩ := h
    obtain ⟨inner, hending, -⟩ := (TokenStream.scan_cut false position text).ending
    rw [List.append_nil] at htaken
    refine absurd rfl (hinner (.atEnd (position.advance text)) ?_).inner
    rw [← htaken, TokenStream.ofText, hending]
    exact List.mem_concat_self

/-- What is wrong with a literal is wrong with one of its spans. -/
private theorem exists_failsIn {token : Token} {rest : List Token} {content : String}
    (hpassed : Passed splice (TokenStream.ofText position text).tokens (token :: rest))
    (hkind : token.kind = .literal .expressions content)
    (h : splice token.position content.toList = .error d) :
    ∃ lead inner, FailsIn d position text token.position lead inner ∧
      Expr.ofTokens (TokenStream.ofText token.position inner).tokens = .error d ∧
      inner.length < text.length := by
  have hmem := hpassed.subset List.mem_cons_self
  have hliteral := TokenStream.length_lt_of_literal_mem hmem hkind
  obtain ⟨lead, hposition, hlead, hfinish | ⟨problem, hspelling⟩⟩ :=
    (TokenStream.scan_cut false position text).stands hmem
  · exact absurd (hfinish.1.symm.trans hkind) Token.Kind.noConfusion
  rw [splice_eq] at h
  obtain ⟨before, span, after, hspans, hread, hspan⟩ := mapM_eq_error h
  cases span with
  | plain run => cases hspan
  | braced inner =>
    have hfails : Expr.ofTokens (TokenStream.ofText token.position inner).tokens = .error d := by
      rw [partOf] at hspan
      cases hvalue : Expr.ofTokens (TokenStream.ofText token.position inner).tokens with
      | ok value =>
        rw [hvalue] at hspan
        cases hspan
      | error other =>
        rw [hvalue] at hspan
        obtain rfl := Except.error.inj hspan
        rfl
    have hinner : Literal.Span.braced inner ∈ Literal.spans content.toList := by
      rw [hspans]
      exact List.mem_append_right _ List.mem_cons_self
    have htext : lead ++ '$' :: '<' :: content.toList <+: text := by
      rw [hkind] at hspelling
      exact ((List.prefix_append_right_inj lead).mpr hspelling.opens).trans hlead
    exact ⟨_, inner, .span hpassed hkind hposition htext hspans hread hfails, hfails,
      (Literal.length_lt_of_braced_mem hinner).trans hliteral⟩

/-- A problem with a token of a span, or of a span inside it, is one with a token of a span. -/
private theorem FailsIn.deepen (h : FailsIn d position text place lead inner)
    (hcomplains : (∃ lead' token, Complains d place inner lead' token) ∨
      ∃ place' lead' innermost lead'' token, FailsIn d place inner place' lead' innermost ∧
        Complains d place' innermost lead'' token) :
    ∃ place' lead' innermost lead'' token, FailsIn d position text place' lead' innermost ∧
      Complains d place' innermost lead'' token := by
  rcases hcomplains with ⟨lead', token, hcomplains⟩ |
    ⟨place', lead', innermost, lead'', token, hinner, hcomplains⟩
  · exact ⟨place, lead, inner, lead', token, h, hcomplains⟩
  · exact ⟨place', _, innermost, lead'', token, h.within hinner, hcomplains⟩

/-- A text that is no expression has a problem with one of its tokens, or with a token of one of its
spans. -/
theorem exists_complains {position : Position} {text : List Char}
    (h : Expr.ofTokens (TokenStream.ofText position text).tokens = .error d) :
    (∃ lead token, Complains d position text lead token) ∨
      ∃ place lead inner lead' token, FailsIn d position text place lead inner ∧
        Complains d place inner lead' token := by
  cases standalone_fails h with
  | own hrest hblamed =>
    have hmem := front_mem hrest
    obtain ⟨lead, hposition, hlead, hending⟩ :=
      (TokenStream.scan_cut false position text).stands hmem
    refine .inl ⟨lead, _, hmem, hblamed, hblamed.position.trans hposition, hlead, fun hfinish => ?_⟩
    refine hending.elim And.right fun ⟨_, hspelling⟩ => ?_
    exact absurd hfinish hspelling.kind_ne_finish
  | literal hrest hkind hsplice =>
    obtain ⟨lead, inner, hspan, hfails, hlt⟩ := exists_failsIn hrest hkind hsplice
    exact .inr (hspan.deepen (exists_complains hfails))
termination_by text.length

/-! ## Problems of scripts -/

/-- Whether a problem ends a program and comes from a literal: with another problem in place of the
one that literals have, the program has that one. -/
def FromLiteral (tokens : List Token) (d : Diagnostic) : Prop :=
  ∀ f : Diagnostic → Diagnostic,
    (program (fun position text => (splice position text).mapError f) tokens).2 = some (f d)

/-- A problem that comes from a literal is what some literal in front of all others that cannot be
read has. -/
private theorem FromLiteral.exists_literal {tokens : List Token} (h : FromLiteral tokens d) :
    (program splice tokens).2 = some d ∧ ∃ token rest content,
      Passed splice tokens (token :: rest) ∧ token.kind = .literal .expressions content ∧
        splice token.position content.toList = .error d := by
  have hid : (fun position text => (splice position text).mapError id) = splice := by
    funext position text
    cases splice position text <;> rfl
  have hread : (program splice tokens).2 = some d := hid ▸ h id
  refine ⟨hread, ?_⟩
  -- a change of the problems of literals that leaves no problem as it is
  let f (d : Diagnostic) : Diagnostic := { d with position := d.position.next '\n' }
  have hchanged : d ≠ f d := fun heq =>
    (Position.before_next d.position '\n').ne (congrArg Diagnostic.position heq)
  have halike : Alike splice (fun position text => (splice position text).mapError f) tokens := by
    intro token _ content _ parts
    dsimp only
    cases splice token.position content.toList with
    | ok other => exact Iff.rfl
    | error other => constructor <;> intro h <;> cases h
  have hread' := h f
  rcases program_agrees tokens halike with heq | ⟨stmts, e, e', hprogram, hprogram', hfails⟩
  · rw [← heq, hread] at hread'
    exact absurd (Option.some.inj hread') hchanged
  · rw [hprogram] at hread
    rw [hprogram'] at hread'
    obtain rfl := Option.some.inj hread
    obtain rfl := Option.some.inj hread'
    generalize hf : f e = e' at hfails hchanged
    cases hfails with
    | own => exact absurd rfl hchanged
    | literal hrest hkind hsplice => exact ⟨_, _, _, hrest, hkind, hsplice⟩

/-- A problem that comes from a literal is a problem with a token in a span, and is placed as though
the span stood where the innermost literal is placed itself. So it is placed right just if that is in
the line in which the span begins, and the span brings a new line in front of the token. Otherwise it
is placed too early. -/
theorem literal_problem_displaced {source : String}
    (h : FromLiteral (TokenStream.ofText .start source.toList).tokens d) :
    (∃ earlier, (parse source).diagnostics = earlier ++ [d]) ∧
      ∃ place lead inner lead' token, FailsIn d .start source.toList place lead inner ∧
        lead ++ inner ++ ['\x7d'] <+: source.toList ∧ Complains d place inner lead' token ∧
        (d.position = Position.start.advance (lead ++ lead') ↔
          place.line = (Position.start.advance lead).line ∧ '\n' ∈ lead') ∧
        (d.position ≠ Position.start.advance (lead ++ lead') →
          d.position.Before (Position.start.advance (lead ++ lead'))) := by
  obtain ⟨hread, token, rest, content, hpassed, hkind, hsplice⟩ := h.exists_literal
  refine ⟨⟨_, by rw [parse_eq, hread]; rfl⟩, ?_⟩
  obtain ⟨lead, inner, houter, hfails, -⟩ := exists_failsIn hpassed hkind hsplice
  obtain ⟨place, lead, inner, lead', token, hspan, hcomplains⟩ :=
    houter.deepen (exists_complains hfails)
  refine ⟨place, lead, inner, lead', token, hspan, hspan.stands, hcomplains, ?_⟩
  rw [hcomplains.reported, Position.advance_append]
  rcases hspan.before.advance lead' with ⟨hline, heq⟩ | ⟨hline, hbefore⟩
  · exact ⟨iff_of_true heq hline, fun hne => absurd heq hne⟩
  · exact ⟨iff_of_false hbefore.ne hline, fun _ => hbefore⟩

/-- The literal of `x = $<ab {c +}>`, in which an operand is missing. -/
def unfinishedToken : Token :=
  ⟨.literal .expressions "ab \x7bc +\x7d", "$<ab \x7bc +\x7d>", ⟨1, 5⟩⟩

/-- A script of an assignment that stops at its literal. -/
private theorem program_unfinishedToken
    {splice : Position → List Char → Except Diagnostic (List Part)}
    (h : splice ⟨1, 5⟩ "ab \x7bc +\x7d".toList = .error d) :
    (program splice [⟨.name "x", "x", ⟨1, 1⟩⟩, ⟨.mark .assign, "=", ⟨1, 3⟩⟩, unfinishedToken,
      .atEnd ⟨1, 16⟩]).2 = some d := by
  cbv
  dsimp only
  rw [h]

/-- What is missed in front of the last brace is said to be missed in the middle of the literal. -/
theorem literal_problem_displaced_unfinishedToken :
    FromLiteral (TokenStream.ofText .start "x = $<ab \x7bc +\x7d>".toList).tokens
        ⟨.unexpected "end of input", ⟨1, 8⟩⟩ ∧
      ∃ lead lead', lead ++ lead' <+: "x = $<ab \x7bc +\x7d>".toList ∧
        (Position.mk 1 8).Before (Position.start.advance (lead ++ lead')) := by
  have htokens : (TokenStream.ofText .start "x = $<ab \x7bc +\x7d>".toList).tokens =
      [⟨.name "x", "x", ⟨1, 1⟩⟩, ⟨.mark .assign, "=", ⟨1, 3⟩⟩, unfinishedToken,
        .atEnd ⟨1, 16⟩] := by cbv
  have hsplice : splice ⟨1, 5⟩ "ab \x7bc +\x7d".toList =
      .error ⟨.unexpected "end of input", ⟨1, 8⟩⟩ := by cbv
  have hliteral : FromLiteral (TokenStream.ofText .start "x = $<ab \x7bc +\x7d>".toList).tokens
      ⟨.unexpected "end of input", ⟨1, 8⟩⟩ := by
    intro f
    rw [htokens]
    refine program_unfinishedToken ?_
    rw [hsplice]
    rfl
  obtain ⟨-, place, lead, inner, lead', token, -, hlead, hcomplains, hplaced, hbefore⟩ :=
    literal_problem_displaced hliteral
  have hlead' : lead ++ lead' <+: "x = $<ab \x7bc +\x7d>".toList := by
    have hinner := (List.prefix_append lead' token.text.toList).trans hcomplains.stands
    exact ((List.prefix_append_right_inj lead).mpr hinner).trans
      ((List.prefix_append _ _).trans hlead)
  refine ⟨hliteral, lead, lead', hlead', hbefore fun heq => ?_⟩
  -- the script is of one line
  have hnewline := (hplaced.mp heq).2
  exact absurd (hlead'.subset (List.mem_append_right lead hnewline)) (by decide)

end Animatic.Script
