import Mathlib
import Animatic.Proofs.Script.Angles
import Animatic.Proofs.Script.Joining
import Animatic.Proofs.Script.Names
import Animatic.Proofs.Script.Nesting
import Animatic.Proofs.Script.Placement
import Animatic.Proofs.Script.Stopping
import Animatic.Session.Eval

/-!
# Literals with expressions in them

A `$<…>` literal whose braces hold balanced texts is one token. It reads as its runs of text and
what the texts read as on their own, and its value is made of the runs and the values' texts.

* `Template.parts`, `Template.fill`: what stands in a literal, and the text it makes.
* `Template.ofText_source`, `Template.splice_content`: its token, and its parts.
* `Template.evalParts_parts`: its expressions are evaluated from left to right, each once.
* `Template.literal_reads`: all of that, and what stops the reading of a literal.
-/

namespace Animatic.Script.Literal

/-- A run of text as a part, if it is not empty. -/
def runPart : List Char → List Part
  | [] => []
  | c :: rest => [.text (String.ofList (c :: rest))]

namespace Template

/-- What the texts of the spans read as, each on its own. -/
def Parses (template : Template) (position : Position) (values : List Expr) : Prop :=
  List.Forall₂ (fun piece value =>
    Expr.ofTokens (TokenStream.ofText position piece.2).tokens = .ok value) template.pieces values

/-- The runs of text but the empty ones, and expressions in place of the spans. -/
def parts (template : Template) (values : List Expr) : List Part :=
  (template.pieces.zip values).flatMap (fun (piece, value) => runPart piece.1 ++ [.expr value]) ++
    runPart template.last

/-- The runs of text, and other texts in place of the spans. -/
def fill (template : Template) (texts : List String) : String :=
  (template.pieces.zip texts).foldr
    (fun (piece, text) more => String.ofList piece.1 ++ (text ++ more))
    (String.ofList template.last)

variable {template : Template} {position : Position} {values : List Expr}

/-! ## The token -/

/-- A literal is one token, without a problem. -/
theorem ofText_source (h : template.WellFormed) (position : Position) :
    TokenStream.ofText position template.source =
      { tokens := [⟨.literal .expressions (String.ofList template.content),
          String.ofList template.source, position⟩, .atEnd (position.advance template.source)]
        diagnostics := [] } := by
  have hencloses : Encloses 0 template.content := encloses_iff.mpr (closingAngle?_content h [])
  exact TokenStream.scan_of_encloses .expressions nofun hencloses position

/-! ## The parts -/

private theorem partOf_plainRun (position : Position) (run : List Char) :
    List.Forall₂ (fun span part => partOf position span = .ok part) (plainRun run)
      (runPart run) := by
  cases run with
  | nil => exact .nil
  | cons c rest => exact .cons rfl .nil

/-- What stands in a literal whose texts are expressions. -/
theorem splice_content (h : template.WellFormed) (hvalues : template.Parses position values) :
    splice position template.content = .ok (template.parts values) := by
  rw [splice_eq, spans_content h, mapM_eq_ok]
  refine List.rel_append ?_ (partOf_plainRun position template.last)
  obtain ⟨pieces, last⟩ := template
  change List.Forall₂ _ pieces values at hvalues
  clear h
  change List.Forall₂ _ (pieces.flatMap _) ((pieces.zip values).flatMap _)
  induction hvalues with
  | nil => exact .nil
  | @cons piece value pieces values hvalue _ ih =>
    rw [List.flatMap_cons, List.zip_cons_cons, List.flatMap_cons]
    refine List.rel_append (List.rel_append (partOf_plainRun position piece.1) (.cons ?_ .nil)) ih
    rw [partOf, hvalue]
    rfl

private theorem mapM_append_error {α β : Type} {f : α → Except Diagnostic β} {items : List α}
    {results : List β} {item : α} {d : Diagnostic} (h : items.mapM f = .ok results)
    (hitem : f item = .error d) (others : List α) :
    (items ++ item :: others).mapM f = .error d := by
  rw [List.mapM_append, h, List.mapM_cons, hitem]
  rfl

/-- What stops a literal is what stops the first text that is no expression. -/
theorem splice_content_error {before after : List (List Char × List Char)}
    {run text : List Char} {d : Diagnostic} (h : template.WellFormed)
    (hpieces : template.pieces = before ++ (run, text) :: after)
    (hbefore : Parses ⟨before, []⟩ position values)
    (hstops : Expr.ofTokens (TokenStream.ofText position text).tokens = .error d) :
    splice position template.content = .error d := by
  have hspans : Literal.spans template.content =
      before.flatMap (fun piece => plainRun piece.1 ++ [.braced piece.2]) ++ plainRun run ++
        .braced text :: (after.flatMap (fun piece => plainRun piece.1 ++ [.braced piece.2]) ++
          plainRun template.last) := by
    rw [spans_content h, hpieces, List.flatMap_append, List.flatMap_cons]
    simp only [List.append_assoc, List.cons_append, List.nil_append]
  have hwell : WellFormed ⟨before, run⟩ := by
    refine ⟨fun piece hmem => h.runs piece ?_, fun piece hmem => h.spans piece ?_,
      h.runs (run, text) ?_⟩ <;> rw [hpieces]
    · exact List.mem_append_left _ hmem
    · exact List.mem_append_left _ hmem
    · exact List.mem_append_right _ List.mem_cons_self
  have hfront := @splice_content ⟨before, run⟩ position values hwell hbefore
  rw [splice_eq, spans_content hwell] at hfront
  rw [splice_eq, hspans]
  refine mapM_append_error hfront ?_ _
  rw [partOf, hstops]
  rfl

/-! ## Readings -/

/-- Texts that are expressions are expressions at another place, the same up to positions. -/
theorem Parses.elsewhere {place : Position} (h : template.Parses place values)
    (position : Position) :
    ∃ values', template.Parses position values' ∧
      values'.map Expr.unplaced = values.map Expr.unplaced := by
  obtain ⟨pieces, last⟩ := template
  change List.Forall₂ _ pieces values at h
  induction h with
  | nil => exact ⟨[], .nil, rfl⟩
  | @cons piece value pieces values hvalue _ ih =>
    have helsewhere := ofTokens_elsewhere place position piece.2
    rw [hvalue] at helsewhere
    obtain ⟨value', hvalue', hunplaced⟩ := helsewhere.of_ok
    obtain ⟨values', hvalues', hothers⟩ := ih
    refine ⟨value' :: values', .cons hvalue' hvalues', ?_⟩
    rw [List.map_cons, List.map_cons, hunplaced, hothers]

private theorem exists_parses {pieces : List (List Char × List Char)} {last : List Char}
    (h : ∀ piece ∈ pieces, ∃ value,
      Expr.ofTokens (TokenStream.ofText position piece.2).tokens = .ok value) :
    ∃ values, Parses ⟨pieces, last⟩ position values := by
  induction pieces with
  | nil => exact ⟨[], .nil⟩
  | cons piece pieces ih =>
    obtain ⟨⟨value, hvalue⟩, hothers⟩ := List.forall_mem_cons.mp h
    obtain ⟨values, hvalues⟩ := ih hothers
    exact ⟨value :: values, .cons hvalue hvalues⟩

/-- The expression that the token of a literal is. -/
theorem outcome_expression_literal {content text : String} {parts : List Part} {rest : List Token}
    (hparts : splice position content.toList = .ok parts) (hends : Ends rest) :
    (expression splice true (⟨.literal .expressions content, text, position⟩ :: rest)).outcome =
      .ok (.interpolated position parts, rest) := by
  refine outcome_expression_operand rfl ?_ (outcome_suffixes_stop hends.not_extends) hends
  rw [primary]
  dsimp only
  rw [hparts]
  rfl

theorem outcome_expression_literal_error {content text : String} {rest : List Token}
    {d : Diagnostic} (hparts : splice position content.toList = .error d) :
    (expression splice true (⟨.literal .expressions content, text, position⟩ :: rest)).outcome =
      .error d := by
  refine outcome_expression_error rfl ?_
  rw [primary]
  dsimp only
  rw [hparts]
  rfl

private theorem begins_literal {content text : String} (rest : List Token) :
    Begins (⟨.literal .expressions content, text, position⟩ :: rest) :=
  ⟨Token.Kind.noConfusion, Token.Kind.noConfusion, Token.Kind.noConfusion⟩

private theorem bare_literal {content text : String} (rest : List Token) :
    Bare (⟨.literal .expressions content, text, position⟩ :: rest) :=
  bare_of_not_name fun _ => Token.Kind.noConfusion

/-- A script that is a literal whose texts are expressions. -/
theorem parse_source (h : template.WellFormed) (hvalues : template.Parses .start values) :
    parse (String.ofList template.source) =
      ⟨[.expr .start (.interpolated .start (template.parts values))], []⟩ := by
  have hsplice : splice .start (String.ofList template.content).toList =
      .ok (template.parts values) := by
    rw [String.toList_ofList]
    exact splice_content h hvalues
  refine parse_single (by rw [String.toList_ofList, ofText_source h]) rfl (begins_literal _)
    (outcome_statement_expr (bare_literal _)
      (outcome_expression_literal hsplice (ends_cons rfl rfl)) fun hassign => ?_) rfl
  cases hassign

/-- An expression that is a literal whose texts are expressions. -/
theorem ofTokens_source (h : template.WellFormed) (hvalues : template.Parses position values) :
    Expr.ofTokens (TokenStream.ofText position template.source).tokens =
      .ok (.interpolated position (template.parts values)) := by
  have hsplice : splice position (String.ofList template.content).toList =
      .ok (template.parts values) := by
    rw [String.toList_ofList]
    exact splice_content h hvalues
  rw [ofText_source h]
  exact ofTokens_of_outcome (outcome_expression_literal hsplice (ends_cons rfl rfl)) rfl

/-- A script that is a literal with a text that is no expression. -/
theorem parse_source_error {d : Diagnostic} (h : template.WellFormed)
    (hstops : splice .start template.content = .error d) :
    parse (String.ofList template.source) = ⟨[], [d]⟩ := by
  rw [← String.toList_ofList (l := template.content)] at hstops
  exact parse_stopped (by rw [String.toList_ofList, ofText_source h]) (begins_literal _)
    (outcome_statement_error (bare_literal _) (outcome_expression_literal_error hstops))

/-- An expression that is a literal with a text that is no expression. -/
theorem ofTokens_source_error {d : Diagnostic} (h : template.WellFormed)
    (hstops : splice position template.content = .error d) :
    Expr.ofTokens (TokenStream.ofText position template.source).tokens = .error d := by
  rw [← String.toList_ofList (l := template.content)] at hstops
  rw [ofText_source h]
  exact ofTokens_of_outcome_error (outcome_expression_literal_error hstops)

/-! ## The value -/

section

variable (commands : Commands) (callees : Callees)

open Session

private theorem evalParts_run (run : List Char) (rest : List Part) :
    evalParts commands callees (runPart run ++ rest) =
      (do
        let following ← evalParts commands callees rest
        return String.ofList run ++ following) := by
  cases run with
  | nil =>
    have hnil (following : String) : String.ofList [] ++ following = following :=
      String.empty_append
    simp only [runPart, List.nil_append, hnil, bind_pure]
  | cons c run => rw [runPart, List.singleton_append, evalParts]

/-- The expressions in a literal are evaluated from left to right, each once, and their values'
texts are put in place of the spans. -/
theorem evalParts_parts (h : values.length = template.pieces.length) :
    evalParts commands callees (template.parts values) =
      (do
        let results ← values.mapM (eval commands callees)
        return template.fill (results.map Value.display)) := by
  obtain ⟨pieces, last⟩ := template
  induction pieces generalizing values with
  | nil =>
    obtain rfl := List.length_eq_zero_iff.mp h
    have hlast := evalParts_run commands callees last []
    rw [List.append_nil] at hlast
    simp only [parts, fill, List.zip_nil_left, List.flatMap_nil, List.nil_append, hlast, evalParts,
      List.mapM_nil, pure_bind, String.append_empty, List.foldr_nil]
  | cons piece pieces ih =>
    cases values with
    | nil => cases h
    | cons value values =>
      have hrest := ih (Nat.succ.inj h)
      have hparts : parts ⟨piece :: pieces, last⟩ (value :: values) =
          runPart piece.1 ++ .expr value :: parts ⟨pieces, last⟩ values := by
        simp only [parts, List.zip_cons_cons, List.flatMap_cons, List.append_assoc,
          List.cons_append, List.nil_append]
      simp only [hparts, evalParts_run, evalParts, hrest, List.mapM_cons, bind_assoc, pure_bind,
        fill, List.map_cons, List.zip_cons_cons, List.foldr_cons]

end

/-- A literal whose braces hold balanced texts is one token. If the texts are expressions, it reads
as its runs but the empty ones and these expressions, and evaluates them from left to right, each
once, to put the values' texts in their places. If one is not, then what stops the reading of the
first such text is a syntax problem, and stops that of the literal. -/
theorem literal_reads (h : template.WellFormed) (position : Position) :
    TokenStream.ofText position template.source =
        { tokens := [⟨.literal .expressions (String.ofList template.content),
            String.ofList template.source, position⟩, .atEnd (position.advance template.source)]
          diagnostics := [] } ∧
      (∀ values, template.Parses .start values →
        parse (String.ofList template.source) =
          ⟨[.expr .start (.interpolated .start (template.parts values))], []⟩ ∧
        (∃ values', values'.map Expr.unplaced = values.map Expr.unplaced ∧
          Expr.ofTokens (TokenStream.ofText position template.source).tokens =
            .ok (.interpolated position (template.parts values'))) ∧
        ∀ values', values'.map Expr.unplaced = values.map Expr.unplaced →
          ∀ commands callees,
            Session.eval commands callees (.interpolated position (template.parts values')) =
              (do
                let results ← values'.mapM (Session.eval commands callees)
                return .text (template.fill (results.map Value.display)))) ∧
      ∀ before run text after d, template.pieces = before ++ (run, text) :: after →
        (∀ piece ∈ before, ∃ value,
          Expr.ofTokens (TokenStream.ofText .start piece.2).tokens = .ok value) →
        Expr.ofTokens (TokenStream.ofText .start text).tokens = .error d →
          d.problem.kind = .syntactic ∧
          parse (String.ofList template.source) = ⟨[], [d]⟩ ∧
          ∃ d', d'.problem = d.problem ∧
            Expr.ofTokens (TokenStream.ofText position text).tokens = .error d' ∧
            Expr.ofTokens (TokenStream.ofText position template.source).tokens = .error d' := by
  refine ⟨ofText_source h position, fun values hvalues => ⟨parse_source h hvalues, ?_, ?_⟩, ?_⟩
  · obtain ⟨values', hvalues', hunplaced⟩ := hvalues.elsewhere position
    exact ⟨values', hunplaced, ofTokens_source h hvalues'⟩
  · intro values' hunplaced commands callees
    have hlength : values'.length = template.pieces.length := by
      have hmap := congrArg List.length hunplaced
      rw [List.length_map, List.length_map] at hmap
      rw [hmap, List.Forall₂.length_eq hvalues]
    rw [Session.eval, evalParts_parts commands callees hlength]
    simp only [bind_assoc, pure_bind]
  · intro before run text after d hpieces hbefore hstops
    obtain ⟨values, hvalues⟩ : ∃ values, Parses ⟨before, []⟩ .start values :=
      exists_parses hbefore
    have hsyntactic := standalone_syntactic (fun _ _ _ => splice_syntactic _ _) hstops
    refine ⟨hsyntactic, parse_source_error h (splice_content_error h hpieces hvalues hstops), ?_⟩
    have helsewhere := ofTokens_elsewhere .start position text
    rw [hstops] at helsewhere
    obtain ⟨d', hd', hproblem⟩ := helsewhere.of_error
    obtain ⟨values', hvalues', -⟩ := hvalues.elsewhere position
    exact ⟨d', hproblem, hd',
      ofTokens_source_error h (splice_content_error h hpieces hvalues' hd')⟩

/-- The literal that prices an item, with another literal in its braces. -/
def priceTag : Template :=
  ⟨[("Item ".toList, "n > m".toList), ([], "$<\x7bn\x7d>".toList)], "!".toList⟩

/-- A literal in whose second braces nothing can be read. -/
def brokenTag : Template := ⟨[([], "n".toList), ("-".toList, ")".toList)], []⟩

theorem literal_reads_tags :
    priceTag.WellFormed ∧ brokenTag.WellFormed ∧
      parse (String.ofList priceTag.source) =
        ⟨[.expr .start (.interpolated .start [.text "Item ",
            .expr (.binary ⟨1, 3⟩ .gt (.name .start "n") (.name ⟨1, 5⟩ "m")),
            .expr (.interpolated .start [.expr (.name .start "n")]), .text "!"])], []⟩ ∧
      parse (String.ofList brokenTag.source) = ⟨[], [⟨.unexpected ")", .start⟩]⟩ := by
  have hprice : priceTag.WellFormed := by decide
  have hbroken : brokenTag.WellFormed := by decide
  have hparses : priceTag.Parses .start
      [.binary ⟨1, 3⟩ .gt (.name .start "n") (.name ⟨1, 5⟩ "m"),
        .interpolated .start [.expr (.name .start "n")]] :=
    .cons (by cbv) (.cons (by cbv) .nil)
  have hbefore : ∀ piece ∈ [(([] : List Char), "n".toList)], ∃ value,
      Expr.ofTokens (TokenStream.ofText .start piece.2).tokens = .ok value :=
    List.forall_mem_singleton.mpr ⟨.name .start "n", by cbv⟩
  have hstops : Expr.ofTokens (TokenStream.ofText .start ")".toList).tokens =
      .error ⟨.unexpected ")", .start⟩ := by cbv
  exact ⟨hprice, hbroken, ((literal_reads hprice .start).2.1 _ hparses).1,
    ((literal_reads hbroken .start).2.2 _ _ _ _ _ rfl hbefore hstops).2.1⟩

end Template

end Animatic.Script.Literal
