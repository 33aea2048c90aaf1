import Mathlib
import Animatic.Proofs.Script.Names
import Animatic.Proofs.Script.Nesting
import Animatic.Proofs.Script.Placement
import Animatic.Proofs.Script.Reading

/-!
# Names joined by dots

In a `&<…>` literal a span stands for a value if it is a path: names joined by dots, with white
space around them. Any other span stays as it is. As an expression a path reads as the same
variable, or property of one, unless it begins with the word for a truth value.

* `Path`: names joined by dots; `dottedName?_eq_some_iff` finds them.
* `Stands`, `namedParts_stand`: what stands in a `&<…>` literal.
* `SamePath`, `SamePart`: paths and parts at different positions.
* `splice_of_paths`: the parts of a literal whose spans are paths.
-/

namespace Animatic.Script.Literal

open Animatic.Text

/-! ## Paths -/

/-- Names joined by dots. -/
structure Path where
  first : List Char
  others : List (List Char)
  isName_first : isName first = true
  isName_others : ∀ name ∈ others, isName name = true

namespace Path

/-- The text of a path. -/
def text (path : Path) : List Char := ['.'].intercalate (path.first :: path.others)

/-- The variable, or the property of one, that a path stands for. -/
def value (path : Path) (position : Position) : Expr :=
  path.others.foldl (fun target name => .member position target (String.ofList name))
    (.name position (String.ofList path.first))

end Path

/-- The pieces between dots. -/
theorem segments_eq (text : List Char) : segments text = text.splitOn '.' := by
  induction text with
  | nil => rfl
  | cons c rest ih =>
    rw [segments, ih, List.splitOn, List.splitOn, List.splitOnP_cons_eq_if_modifyHead]
    by_cases hc : c = '.'
    · rw [if_pos hc, if_pos (beq_iff_eq.mpr hc)]
    · rw [if_neg hc, if_neg fun h => hc (beq_iff_eq.mp h)]
      cases hrest : List.splitOnP (· == '.') rest with
      | nil => exact absurd hrest (List.splitOnP_ne_nil _ rest)
      | cons first others => rfl

/-- No name holds a dot. -/
theorem not_mem_of_isName {name : List Char} (h : isName name = true) : '.' ∉ name := by
  cases name with
  | nil => exact List.not_mem_nil
  | cons c rest =>
    obtain ⟨hfirst, hrest⟩ := (Bool.and_eq_true _ _).mp h
    have hdot : continuesName '.' = false := by decide
    intro hmem
    obtain rfl | hmem := List.mem_cons.mp hmem
    · rw [continuesName_of_startsName hfirst] at hdot
      cases hdot
    · rw [List.all_eq_true.mp hrest _ hmem] at hdot
      cases hdot

theorem Path.segments_text (path : Path) : segments path.text = path.first :: path.others := by
  rw [segments_eq, text]
  refine List.splitOn_intercalate '.' (fun name hmem => ?_) (List.cons_ne_nil _ _)
  obtain rfl | hmem := List.mem_cons.mp hmem
  · exact not_mem_of_isName path.isName_first
  · exact not_mem_of_isName (path.isName_others name hmem)

/-- What is read as a dotted name are the paths. -/
theorem dottedName?_eq_some_iff {position : Position} {text : List Char} {value : Expr} :
    dottedName? position text = some value ↔
      ∃ path : Path, path.text = text ∧ path.value position = value := by
  constructor
  · intro h
    unfold dottedName? at h
    cases hsegments : segments text with
    | nil => simp only [hsegments, reduceCtorEq] at h
    | cons first others =>
      rw [hsegments] at h
      dsimp only at h
      split at h
      · rename_i hnames
        rw [Bool.and_eq_true, List.all_eq_true] at hnames
        refine ⟨⟨first, others, hnames.1, hnames.2⟩, ?_, Option.some.inj h⟩
        rw [Path.text, ← hsegments, segments_eq, List.intercalate_splitOn]
      · cases h
  · rintro ⟨path, rfl, rfl⟩
    have hnames : (isName path.first && path.others.all isName) = true := by
      rw [Bool.and_eq_true, List.all_eq_true]
      exact ⟨path.isName_first, path.isName_others⟩
    rw [dottedName?, path.segments_text]
    dsimp only
    rw [if_pos hnames]
    rfl

/-! ## Parts of `&<…>` literals -/

/-- What a piece stands for in a `&<…>` literal: a path for its value, and anything else for
itself. -/
inductive Stands (position : Position) : Span → Part → Prop where
  | run (run : List Char) : Stands position (.plain run) (.text (String.ofList run))
  | path {content : List Char} (path : Path) (h : path.text = trim content) :
    Stands position (.braced content) (.expr (path.value position))
  | other {content : List Char} (h : ∀ path : Path, path.text ≠ trim content) :
    Stands position (.braced content) (.text (String.ofList (Span.braced content).source))

/-- The pieces of a `&<…>` literal stand for paths and for themselves. -/
theorem namedParts_stand (position : Position) (text : List Char) :
    List.Forall₂ (Stands position) (spans text) (namedParts position text) := by
  rw [namedParts, List.forall₂_map_right_iff, List.forall₂_same]
  intro span _
  cases span with
  | plain run => exact .run run
  | braced content =>
    rw [namedPart]
    cases hname : dottedName? position (trim content) with
    | some value =>
      obtain ⟨path, htext, rfl⟩ := dottedName?_eq_some_iff.mp hname
      exact .path path htext
    | none =>
      refine .other fun path htext => ?_
      rw [← htext, dottedName?_eq_some_iff.mpr ⟨path, rfl, rfl⟩] at hname
      cases hname

/-! ## Paths as expressions -/

/-- Two expressions that are one path at different positions. -/
inductive SamePath : Expr → Expr → Prop where
  | name (position position' : Position) (name : String) :
    SamePath (.name position name) (.name position' name)
  | member {target target' : Expr} (position position' : Position) (h : SamePath target target')
    (name : String) : SamePath (.member position target name) (.member position' target' name)

theorem SamePath.unplaced_eq {value value' : Expr} (h : SamePath value value') :
    value.unplaced = value'.unplaced := by
  induction h with
  | name => rfl
  | member _ _ _ _ ih => rw [Expr.unplaced, Expr.unplaced, ih]

/-- Two parts that differ in positions of paths alone. -/
inductive SamePart : Part → Part → Prop where
  | text (run : String) : SamePart (.text run) (.text run)
  | path {value value' : Expr} (h : SamePath value value') : SamePart (.expr value) (.expr value')

theorem unplaced_eq_of_sameParts {parts parts' : List Part}
    (h : List.Forall₂ SamePart parts parts') :
    Part.allUnplaced parts = Part.allUnplaced parts' := by
  induction h with
  | nil => rfl
  | cons hpart _ ih =>
    rw [Part.allUnplaced, Part.allUnplaced, ih]
    cases hpart with
    | text => rfl
    | path hvalue => rw [Part.unplaced, Part.unplaced, hvalue.unplaced_eq]

private theorem intercalate_dot (first : List Char) (others : List (List Char)) :
    ['.'].intercalate (first :: others) = first ++ others.flatMap ('.' :: ·) := by
  induction others generalizing first with
  | nil => rw [List.intercalate_singleton, List.flatMap_nil, List.append_nil]
  | cons name others ih =>
    rw [List.intercalate_cons_cons, ih, List.flatMap_cons, List.append_assoc, List.singleton_append,
      List.cons_append]

/-- What stands around a trimmed text is white space. -/
private theorem exists_of_trim (content : List Char) :
    ∃ before after, content = before ++ (trim content ++ after) ∧
      (∀ c ∈ before, isBlank c = true) ∧ ∀ c ∈ after, isBlank c = true := by
  have htrim : trim content = (content.dropWhile isBlank).rdropWhile isBlank := rfl
  refine ⟨content.takeWhile isBlank, (content.dropWhile isBlank).rtakeWhile isBlank, ?_,
    fun c hmem => List.mem_takeWhile_imp hmem, fun c hmem => List.mem_rtakeWhile_imp hmem⟩
  rw [htrim, List.rdropWhile_append_rtakeWhile, List.takeWhile_append_dropWhile]

variable {afterOperand : Bool} {position : Position} {blanks : List Char}

/-- What follows a name in a path does not continue it. -/
private theorem continuesName_eq_false_behind {others : List (List Char)}
    (hblanks : ∀ c ∈ blanks, isBlank c = true) :
    ∀ c ∈ (others.flatMap ('.' :: ·) ++ blanks).head?, continuesName c = false := by
  intro c hc
  cases others with
  | nil =>
    rw [List.flatMap_nil, List.nil_append] at hc
    exact continuesName_eq_false_of_isBlank (hblanks c (List.mem_of_head? hc))
  | cons name others =>
    obtain rfl := Option.some.inj hc
    decide

private theorem scan_dot {name rest : List Char} (hname : isName name = true) :
    ∃ text place following,
      TokenStream.scan afterOperand position ('.' :: name ++ rest) =
        { tokens := ⟨.mark .dot, text, place⟩ ::
            (TokenStream.scan false following (name ++ rest)).tokens
          diagnostics := (TokenStream.scan false following (name ++ rest)).diagnostics } := by
  cases name with
  | nil => cases hname
  | cons first more =>
    obtain ⟨hfirst, -⟩ := (Bool.and_eq_true _ _).mp hname
    have hdigit : first.isDigit = false := Bool.eq_false_iff.mpr fun hdigit => by
      rw [startsName_eq_false_of_isDigit hdigit] at hfirst
      cases hfirst
    have hread : Lexeme.read afterOperand '.' (first :: more ++ rest) = .ofMark .dot 0 := by
      have hif : Lexeme.read afterOperand '.' (first :: more ++ rest) =
          if first.isDigit then Lexeme.number '.' (first :: more ++ rest) else .ofMark .dot 0 := rfl
      rw [hif, hdigit, if_neg Bool.false_ne_true]
    refine ⟨".", position, position.advance ['.'], ?_⟩
    rw [List.cons_append, TokenStream.scan_token (by decide), hread]
    rfl

/-- The names behind a part of a path are read as its properties. -/
private theorem suffixes_path (hblanks : ∀ c ∈ blanks, isBlank c = true)
    {others : List (List Char)} (hnames : ∀ name ∈ others, isName name = true)
    {place : Position} {target target' : Expr} (htarget : SamePath target target')
    (afterOperand : Bool) (position : Position) :
    ∃ value last,
      (suffixes splice true target' (TokenStream.scan afterOperand position
        (others.flatMap ('.' :: ·) ++ blanks)).tokens).outcome = .ok (value, [.atEnd last]) ∧
      SamePath (others.foldl (fun target name => .member place target (String.ofList name)) target)
        value := by
  -- the target grows by one name at a time, and with it what its positions are compared to
  induction others generalizing target target' afterOperand position with
  | nil =>
    have hends : Ends [.atEnd (position.advance blanks)] := ends_cons rfl rfl
    refine ⟨target', position.advance blanks, ?_, htarget⟩
    rw [List.flatMap_nil, List.nil_append, TokenStream.scan_of_blank hblanks]
    exact outcome_suffixes_stop hends.not_extends
  | cons name others ih =>
    obtain ⟨hname, hothers⟩ := List.forall_mem_cons.mp hnames
    obtain ⟨text, dotPlace, following, hdot⟩ := @scan_dot afterOperand position name
      (others.flatMap ('.' :: ·) ++ blanks) hname
    obtain ⟨value, last, hread, hsame⟩ := ih hothers
      (.member place target'.position htarget (String.ofList name))
      (Token.Kind.name (String.ofList name)).endsOperand (following.advance name)
    refine ⟨value, last, ?_, hsame⟩
    rw [List.flatMap_cons, List.append_assoc, hdot,
      TokenStream.scan_name hname (continuesName_eq_false_behind hblanks)]
    dsimp only
    rw [outcome_suffixes_member rfl rfl, hread]

/-- A path that does not begin with the word for a truth value, with white space around it, is an
expression. -/
theorem ofTokens_path {path : Path} (hplain : Plain (String.ofList path.first))
    {content : List Char} (htext : path.text = trim content) (position place : Position) :
    ∃ value, Expr.ofTokens (TokenStream.ofText position content).tokens = .ok value ∧
      SamePath (path.value place) value := by
  obtain ⟨before, after, hcontent, hbefore, hafter⟩ := exists_of_trim content
  rw [← htext, Path.text, intercalate_dot, List.append_assoc] at hcontent
  have hstream : TokenStream.ofText position content =
      let following := TokenStream.scan (Token.Kind.name (String.ofList path.first)).endsOperand
        ((position.advance before).advance path.first)
        (path.others.flatMap ('.' :: ·) ++ after)
      { tokens := ⟨.name (String.ofList path.first), String.ofList path.first,
          position.advance before⟩ :: following.tokens
        diagnostics := following.diagnostics } := by
    rw [hcontent, TokenStream.ofText, TokenStream.scan_blanks hbefore,
      TokenStream.scan_name path.isName_first (continuesName_eq_false_behind hafter)]
  obtain ⟨value, last, hsuffixes, hsame⟩ := suffixes_path hafter path.isName_others
    (.name place (position.advance before) (String.ofList path.first))
    (Token.Kind.name (String.ofList path.first)).endsOperand
    ((position.advance before).advance path.first)
  refine ⟨value, ?_, hsame⟩
  have hbrace : ¬ startsWith .leftBrace
      (TokenStream.scan (Token.Kind.name (String.ofList path.first)).endsOperand
        ((position.advance before).advance path.first)
        (path.others.flatMap ('.' :: ·) ++ after)).tokens := by
    cases hothers : path.others with
    | nil =>
      rw [List.flatMap_nil, List.nil_append, TokenStream.scan_of_blank hafter]
      exact Token.Kind.noConfusion
    | cons name others =>
      obtain ⟨text, dotPlace, following, hdot⟩ := @scan_dot
        (Token.Kind.name (String.ofList path.first)).endsOperand
        ((position.advance before).advance path.first) name
        (others.flatMap ('.' :: ·) ++ after)
        (path.isName_others name (hothers ▸ List.mem_cons_self))
      rw [List.flatMap_cons, List.append_assoc, hdot]
      exact fun hmark => Mark.noConfusion (Token.Kind.mark.inj hmark)
  rw [hstream]
  refine ofTokens_of_outcome (outcome_expression_operand rfl ?_ hsuffixes (ends_cons rfl rfl)) rfl
  exact outcome_primary_name rfl hplain.1 hplain.2 fun _ _ => hbrace

/-- A literal whose spans are paths has the same parts as a `$<…>` literal and as a `&<…>` literal,
up to positions. -/
theorem splice_of_paths {text : List Char}
    (h : ∀ content, .braced content ∈ spans text →
      ∃ path : Path, path.text = trim content ∧ Plain (String.ofList path.first))
    (position : Position) :
    ∃ parts, splice position text = .ok parts ∧
      List.Forall₂ SamePart (namedParts position text) parts := by
  simp only [splice_eq, mapM_eq_ok, namedParts]
  generalize spans text = pieces at h
  induction pieces with
  | nil => exact ⟨[], .nil, .nil⟩
  | cons span rest ih =>
    obtain ⟨parts, hparts, hsame⟩ := ih fun content hmem => h content (List.mem_cons_of_mem _ hmem)
    cases span with
    | plain run => exact ⟨_ :: parts, .cons rfl hparts, .cons (.text _) hsame⟩
    | braced content =>
      obtain ⟨path, htext, hplain⟩ := h content List.mem_cons_self
      obtain ⟨value, hvalue, hpath⟩ := ofTokens_path hplain htext position position
      refine ⟨.expr value :: parts, .cons ?_ hparts, .cons ?_ hsame⟩
      · rw [partOf, hvalue]
        rfl
      · rw [namedPart, dottedName?_eq_some_iff.mpr ⟨path, htext, rfl⟩]
        exact .path hpath

end Animatic.Script.Literal
