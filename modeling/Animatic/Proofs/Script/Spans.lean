import Mathlib
import Animatic.Proofs.Script.Nesting
import Animatic.Proofs.Script.Placement
import Animatic.Proofs.Script.Words

/-!
# Problems inside literals

A script is read without a problem only if every span of its literals is, however deep it stands.
The diagnostics of a script are those of its own characters, though, and not those of the characters
of its spans. What is lost that way is one problem at most for each span: a character that starts no
token stops the reading, and a literal that is not closed is the last thing in its span.

* `Worded`: every token but punctuation stands for a word.
* `Splices`: the spans of the literals in a text, at every depth.
* `TokenStream.Passable`: what can be wrong with characters that are read all the same.
* `parse_passable`: the spans of a script without problems.
-/

namespace Animatic.Script

variable {α β : Type} {tokens : List Token} {position : Position} {text : List Char}

/-! ## Words -/

/-- Every token but punctuation stands for a word. -/
def Worded (tokens : List Token) : Prop :=
  ∀ token ∈ tokens, token.isWord = true → ∃ word : Word, word.Reads splice token

private theorem exists_of_mem {R : α → β → Prop} {as : List α} {bs : List β}
    (h : List.Forall₂ R as bs) {a : α} (hmem : a ∈ as) : ∃ b ∈ bs, R a b := by
  induction h with
  | nil => cases hmem
  | cons hhead _ ih =>
    obtain rfl | hmem := List.mem_cons.mp hmem
    · exact ⟨_, List.mem_cons_self, hhead⟩
    · obtain ⟨b, hb, hab⟩ := ih hmem
      exact ⟨b, List.mem_cons_of_mem _ hb, hab⟩

/-- Where a text is read up to its end, its tokens are words. -/
private theorem worded_of_spelled {words : List Word} {rest : List Token}
    (h : Spelled splice words (TokenStream.ofText position text).tokens rest)
    (hstop : (front rest).isFinish = true) : Worded (TokenStream.ofText position text).tokens := by
  obtain ⟨inner, hending, hinner⟩ := (TokenStream.scan_cut false position text).ending
  obtain ⟨taken, htokens, hwords⟩ := h
  have hfinish : ∀ token ∈ (taken ++ rest).dropLast, token.isFinish = false := by
    rw [← htokens, TokenStream.ofText, hending, List.dropLast_concat]
    exact fun token hmem => Bool.eq_false_iff.mpr fun hfinish =>
      (hinner token hmem).1 (isFinish_iff.mp hfinish)
  intro token hmem hword
  have htaken : token ∈ taken.filter Token.isWord := by
    have hfilter := List.mem_filter.mpr ⟨hmem, hword⟩
    rwa [htokens, List.filter_append, words_of_stop hfinish hstop, List.append_nil] at hfilter
  obtain ⟨word, -, hreads⟩ := exists_of_mem hwords.flip htaken
  exact ⟨word, hreads⟩

/-- The tokens of a script without problems are words. -/
theorem worded_of_parse {source : String} (h : (parse source).diagnostics = []) :
    Worded (TokenStream.ofText .start source.toList).tokens := by
  rw [parse_eq, List.append_eq_nil_iff, Option.toList_eq_nil_iff] at h
  obtain ⟨rest, hspelled, hstop⟩ := program_spelled splice _ (Prod.ext rfl h.2)
  exact worded_of_spelled hspelled hstop

/-- The tokens of a text that is an expression are words. -/
theorem worded_of_ofTokens {value : Expr}
    (h : Expr.ofTokens (TokenStream.ofText position text).tokens = .ok value) :
    Worded (TokenStream.ofText position text).tokens := by
  obtain ⟨rest, hread, hstop⟩ := outcome_of_ofTokens h
  generalize hexpression : expression splice true (TokenStream.ofText position text).tokens = r
    at hread
  cases r with
  | error d => cases hread
  | ok reading =>
    obtain ⟨rfl, rfl⟩ := Prod.mk.inj (Except.ok.inj hread)
    exact worded_of_spelled (expression_spelled splice true _ _ _ _ hexpression)
      (isFinish_iff.mpr hstop)

/-- A character that starts no token is no word. -/
theorem Worded.ne_stray (h : Worded tokens) {token : Token} (hmem : token ∈ tokens) (c : Char) :
    token.kind ≠ .stray c := by
  obtain ⟨kind, tokenText, place⟩ := token
  rintro rfl
  obtain ⟨word, hword⟩ := h _ hmem rfl
  cases word with
  | name | bool | number | text | binary | unary => cases hword
  | key => obtain hkind | hkind := hword <;> cases hkind
  | interpolated => obtain ⟨-, ⟨_, hkind, -⟩ | ⟨_, hkind, -⟩⟩ := hword <;> cases hkind

/-- The spans of a word are expressions. -/
theorem Worded.span (h : Worded tokens) {token : Token} (hmem : token ∈ tokens) {content : String}
    (hkind : token.kind = .literal .expressions content) {inner : List Char}
    (hspan : .braced inner ∈ Literal.spans content.toList) :
    ∃ value, Expr.ofTokens (TokenStream.ofText token.position inner).tokens = .ok value := by
  obtain ⟨parts, hparts⟩ : ∃ parts, splice token.position content.toList = .ok parts := by
    obtain ⟨kind, tokenText, place⟩ := token
    obtain rfl : kind = .literal .expressions content := hkind
    obtain ⟨word, hword⟩ := h _ hmem rfl
    cases word with
    | name | bool | number | text | binary | unary => cases hword
    | key => obtain hkind | hkind := hword <;> cases hkind
    | interpolated position parts =>
      obtain ⟨rfl, ⟨_, hkind, -⟩ | ⟨_, hkind, hparts⟩⟩ := hword
      · cases hkind
      · cases hkind
        exact ⟨parts, hparts⟩
  rw [splice_eq, mapM_eq_ok] at hparts
  obtain ⟨part, -, hpart⟩ := exists_of_mem hparts hspan
  rw [partOf] at hpart
  cases hread : Expr.ofTokens (TokenStream.ofText token.position inner).tokens with
  | ok value => exact ⟨value, rfl⟩
  | error d =>
    rw [hread] at hpart
    cases hpart

/-! ## Spans at every depth -/

/-- The texts that stand in the braces of a text's `$<…>` literals, with their places. -/
inductive Splices : Position → List Char → Position → List Char → Prop where
  /-- A span of a literal. -/
  | literal {position : Position} {text : List Char} {token : Token} {content : String}
      {inner : List Char} (hmem : token ∈ (TokenStream.ofText position text).tokens)
      (hkind : token.kind = .literal .expressions content)
      (hspan : .braced inner ∈ Literal.spans content.toList) :
      Splices position text token.position inner
  /-- A span of a literal inside a span. -/
  | within {position position' position'' : Position} {text inner innermost : List Char}
      (houter : Splices position text position' inner)
      (hinner : Splices position' inner position'' innermost) :
      Splices position text position'' innermost

/-- Every span of a text whose tokens are words is an expression. -/
theorem Splices.ofTokens {position' : Position} {inner : List Char}
    (h : Splices position text position' inner)
    (hworded : Worded (TokenStream.ofText position text).tokens) :
    ∃ value, Expr.ofTokens (TokenStream.ofText position' inner).tokens = .ok value := by
  induction h with
  | literal hmem hkind hspan => exact hworded.span hmem hkind hspan
  | within _ _ ihouter ihinner =>
    -- that the outer span is an expression is what makes words of its tokens
    obtain ⟨value, hvalue⟩ := ihouter hworded
    exact ihinner (worded_of_ofTokens hvalue)

/-! ## Characters -/

/-- Nothing is wrong with the characters of a text, or only that its last literal is not closed. -/
inductive TokenStream.Passable : TokenStream → Prop where
  | clean {tokens : List Token} (h : ∀ token ∈ tokens, token.problem? = none) :
    Passable ⟨tokens, []⟩
  | unclosed {before : List Token} {token last : Token}
    (h : token.problem? = some .unclosedLiteral) :
    Passable ⟨before ++ [token, last], [⟨.unclosedLiteral, token.position⟩]⟩

private theorem Spelling.closed_or_unclosed {kind : Token.Kind} {problem : Option Problem}
    (h : Spelling kind text problem) (hkind : ∀ c, kind ≠ .stray c) :
    problem = none ∨ problem = some .unclosedLiteral := by
  cases h with
  | name | number | mark | closed => exact .inl rfl
  | unclosed => exact .inr rfl
  | stray c => exact absurd rfl (hkind c)

/-- Characters in which every one starts a token. -/
private theorem Cut.passable {diagnostics : List Diagnostic}
    (h : Cut position text tokens diagnostics)
    (hstray : ∀ token ∈ tokens, ∀ c, token.kind ≠ .stray c) :
    TokenStream.Passable ⟨tokens, diagnostics⟩ := by
  induction h with
  | finish => exact .clean (List.forall_mem_singleton.mpr rfl)
  | @token position trivia text rest first kind problem tokens diagnostics _ _ hspelling hlast hrest
      ih =>
    rw [List.forall_mem_cons] at hstray
    obtain ⟨hkind, hothers⟩ := hstray
    have hproblem := hspelling.problem?_eq (position.advance trivia)
    obtain rfl | rfl := hspelling.closed_or_unclosed hkind
    · -- a token without a problem changes nothing
      generalize hstream : TokenStream.mk tokens diagnostics = stream at ih
      cases ih hothers with
      | clean h =>
        obtain ⟨rfl, rfl⟩ := TokenStream.mk.inj hstream
        exact .clean (List.forall_mem_cons.mpr ⟨hproblem, h⟩)
      | unclosed h =>
        obtain ⟨rfl, rfl⟩ := TokenStream.mk.inj hstream
        exact @TokenStream.Passable.unclosed (_ :: _) _ _ h
    · -- a literal that is not closed leaves nothing behind it
      obtain rfl := hlast rfl
      obtain ⟨rfl, rfl⟩ := hrest.of_nil
      exact @TokenStream.Passable.unclosed [] _ _ hproblem

/-- When a script is read without a problem, then nothing is wrong with its characters, and every
span of its literals, at every depth, is an expression in whose characters nothing is wrong but, at
the end, a literal that is not closed. -/
theorem parse_passable {source : String} (h : (parse source).diagnostics = []) :
    (TokenStream.ofText .start source.toList).diagnostics = [] ∧
      ∀ position inner, Splices .start source.toList position inner →
        (∃ value, Expr.ofTokens (TokenStream.ofText position inner).tokens = .ok value) ∧
          (TokenStream.ofText position inner).Passable := by
  refine ⟨?_, fun position inner hspan => ?_⟩
  · rw [parse_eq, List.append_eq_nil_iff] at h
    exact h.1
  · obtain ⟨value, hvalue⟩ := hspan.ofTokens (worded_of_parse h)
    refine ⟨⟨value, hvalue⟩, ?_⟩
    exact (TokenStream.scan_cut false position inner).passable fun token hmem =>
      (worded_of_ofTokens hvalue).ne_stray hmem

/-- The token of `$<{"open}>`, in whose span a literal is not closed. -/
def openToken : Token :=
  ⟨.literal .expressions "\x7b\"open\x7d", "$<\x7b\"open\x7d>", ⟨1, 5⟩⟩

theorem parse_passable_unclosed :
    (parse "x = $<\x7b\"open\x7d>").diagnostics = [] ∧
      Splices .start "x = $<\x7b\"open\x7d>".toList ⟨1, 5⟩ "\"open".toList ∧
      (TokenStream.ofText ⟨1, 5⟩ "\"open".toList).Passable ∧
      (TokenStream.ofText ⟨1, 5⟩ "\"open".toList).diagnostics =
        [⟨.unclosedLiteral, ⟨1, 5⟩⟩] := by
  have hclean : (parse "x = $<\x7b\"open\x7d>").diagnostics = [] := by cbv
  have hspan : Splices .start "x = $<\x7b\"open\x7d>".toList ⟨1, 5⟩ "\"open".toList := by
    have htokens : (TokenStream.ofText .start "x = $<\x7b\"open\x7d>".toList).tokens =
        [⟨.name "x", "x", ⟨1, 1⟩⟩, ⟨.mark .assign, "=", ⟨1, 3⟩⟩, openToken, .atEnd ⟨1, 15⟩] := by
      cbv
    have hspans : Literal.spans "\x7b\"open\x7d".toList = [.braced "\"open".toList] := by cbv
    have hmem : openToken ∈ (TokenStream.ofText .start "x = $<\x7b\"open\x7d>".toList).tokens := by
      rw [htokens]
      exact .tail _ (.tail _ (.head _))
    exact .literal hmem rfl (hspans ▸ List.mem_singleton_self _)
  exact ⟨hclean, hspan, ((parse_passable hclean).2 _ _ hspan).2, by cbv⟩

end Animatic.Script
