import Animatic.Proofs.Script.Angles

/-!
# The pieces of a literal

A text falls into runs and spans in one way only, in which nothing is lost, the spans are balanced
and a brace is left in a run only if nothing closes it. The end of a literal is found by another
count of its braces, and that count agrees: the texts of literals are those whose runs have neither
a `{` nor a `>`.

* `Divided`: pieces none of which could be cut in another way.
* `spans_eq_iff`: the pieces of a text.
* `IsContent`, `Aligned`: texts of closed literals, and pieces at which both counts agree.
* `spans_divided`: both for every text.
-/

namespace Animatic.Script.Literal

/-! ## The division of a text -/

/-- Pieces that are balanced spans and, between them, runs in which no brace opens that is closed in
what follows. -/
inductive Divided : List Span → Prop where
  | nil : Divided []
  | braced {content : List Char} {others : List Span} (hbalanced : Balanced content)
      (hothers : Divided others) : Divided (.braced content :: others)
  | plain {run : List Char} {others : List Span} (hrun : run ≠ [])
      (hnext : ∀ next more, others ≠ .plain next :: more)
      (hopen : ∀ front back, run = front ++ '\x7b' :: back →
        ¬ ClosesBrace (back ++ others.flatMap Span.source))
      (hothers : Divided others) : Divided (.plain run :: others)

theorem Divided.balanced {pieces : List Span} (h : Divided pieces) :
    ∀ content, .braced content ∈ pieces → Balanced content := by
  induction h with
  | nil => exact fun content hmem => absurd hmem List.not_mem_nil
  | braced hbalanced _ ih =>
    intro content hmem
    obtain hcontent | hmem := List.mem_cons.mp hmem
    · obtain rfl := Span.braced.inj hcontent
      exact hbalanced
    · exact ih content hmem
  | plain _ _ _ _ ih =>
    intro content hmem
    obtain hcontent | hmem := List.mem_cons.mp hmem
    · cases hcontent
    · exact ih content hmem

theorem Divided.prepend {c : Char} {pieces : List Span} (h : Divided pieces)
    (hc : c = '\x7b' → ¬ ClosesBrace (pieces.flatMap Span.source)) :
    Divided (prepend c pieces) := by
  have hsingle (front back : List Char) (hrun : [c] = front ++ '\x7b' :: back) :
      ¬ ClosesBrace (back ++ pieces.flatMap Span.source) := by
    obtain ⟨rfl, hback⟩ | ⟨_, rfl, hback⟩ := List.cons_eq_append_iff.mp hrun
    · obtain ⟨hopen, rfl⟩ := List.cons.inj hback
      exact hc hopen.symm
    · exact absurd hback (by simp)
  cases h with
  | nil => exact .plain (List.cons_ne_nil c []) nofun hsingle .nil
  | braced hbalanced hothers =>
    exact .plain (List.cons_ne_nil c []) nofun hsingle (.braced hbalanced hothers)
  | @plain run others hrun hnext hopen hothers =>
    refine .plain (List.cons_ne_nil c run) hnext (fun front back hfront => ?_) hothers
    obtain ⟨rfl, hback⟩ | ⟨tail, rfl, htail⟩ := List.cons_eq_append_iff.mp hfront
    · obtain ⟨rfl, rfl⟩ := List.cons.inj hback
      exact hc rfl
    · exact hopen tail back htail

theorem divided_spans (text : List Char) : Divided (spans text) := by
  induction text using spans_induction with
  | nil =>
    rw [spans]
    exact .nil
  | braced content more hbalanced ih =>
    rw [spans_braced hbalanced]
    exact .braced hbalanced ih
  | plain c rest hplain ih =>
    rw [spans_plain hplain]
    exact ih.prepend (by rwa [flatMap_source_spans])

/-- No text can be divided in two ways. -/
theorem Divided.spans_flatMap_source {pieces : List Span} (h : Divided pieces) :
    spans (pieces.flatMap Span.source) = pieces := by
  induction h with
  | nil => rw [List.flatMap_nil, spans]
  | @braced content others hbalanced _ ih =>
    have hsource : (Span.braced content :: others).flatMap Span.source =
        '\x7b' :: content ++ '\x7d' :: others.flatMap Span.source := by
      rw [List.flatMap_cons, Span.source, List.append_assoc]
      rfl
    rw [hsource, spans_braced hbalanced, ih]
  | @plain run others hrun hnext hopen _ ih =>
    -- the others start with no run, so that this one does not merge with what follows
    have hmore := spans_append hopen (by rwa [ih])
    rw [ih] at hmore
    refine hmore.trans ?_
    cases run with
    | nil => exact absurd rfl hrun
    | cons c rest => rfl

theorem spans_eq_iff {text : List Char} {pieces : List Span} :
    spans text = pieces ↔ pieces.flatMap Span.source = text ∧ Divided pieces := by
  constructor
  · rintro rfl
    exact ⟨flatMap_source_spans text, divided_spans text⟩
  · rintro ⟨rfl, hpieces⟩
    exact hpieces.spans_flatMap_source

/-! ## Both counts of braces -/

/-- Where no surplus brace closes, both counts are the same. -/
theorem foldl_bracesOpen {depth : Nat} {text : List Char} (h : ClosesWithin depth text)
    (outer : Nat) :
    text.foldl bracesOpen (depth + outer) = depthBehind depth text + outer := by
  induction h using ClosesWithin.induction with
  | nil depth => rfl
  | opens depth rest _ _ ih =>
    rw [List.foldl_cons, bracesOpen, if_pos rfl, Nat.add_right_comm, ih, depthBehind_open]
  | closes depth rest _ _ ih =>
    rw [List.foldl_cons, bracesOpen, if_neg (by decide), if_pos rfl, Nat.add_right_comm,
      Nat.add_sub_cancel, ih, depthBehind_close]
  | other depth c rest _ _ hopen hclose ih =>
    rw [List.foldl_cons, bracesOpen, if_neg hopen, if_neg hclose, ih,
      depthBehind_other hopen hclose]

/-- Where no brace opens, surplus closing ones count for nothing. -/
theorem foldl_bracesOpen_of_notMem {text : List Char} (h : '\x7b' ∉ text) :
    text.foldl bracesOpen 0 = 0 := by
  induction text with
  | nil => rfl
  | cons c rest ih =>
    rw [List.mem_cons, not_or] at h
    rw [List.foldl_cons, bracesOpen, if_neg (Ne.symm h.1), Nat.zero_sub, ite_self, ih h.2]

/-- A brace that nothing closes stays open, whatever is open around it. -/
theorem foldl_bracesOpen_ne_zero {depth : Nat} {text : List Char}
    (h : closingBrace? depth text = none) (outer : Nat) :
    text.foldl bracesOpen (outer + depth + 1) ≠ 0 := by
  fun_induction closingBrace? depth text with
  | case1 => exact Nat.add_one_ne_zero _
  | case2 rest => cases h
  | case3 rest depth ih => exact ih (Option.map_eq_none_iff.mp h)
  | case4 depth c rest hclose ih =>
    have hrest := ih (Option.map_eq_none_iff.mp h)
    rw [List.foldl_cons, bracesOpen, if_neg hclose]
    by_cases hopen : c = '\x7b'
    · rwa [if_pos hopen] at hrest ⊢
    · rwa [if_neg hopen] at hrest ⊢

/-! ## The texts of literals -/

/-- Whether a text is what a closed literal in angle brackets stands for. -/
def IsContent (text : List Char) : Prop :=
  ∃ style skip rest,
    (Lexeme.literal style (closingAngle? 0) skip rest).kind = .literal style (String.ofList text) ∧
      (Lexeme.literal style (closingAngle? 0) skip rest).problem = none

theorem isContent_iff {text : List Char} : IsContent text ↔ Encloses 0 text := by
  constructor
  · rintro ⟨style, skip, rest, hkind, hproblem⟩
    exact Lexeme.encloses_of_literal hkind hproblem
  · intro h
    refine ⟨.verbatim, 0, text ++ ['>'], ?_⟩
    rw [Lexeme.literal_of_encloses rfl h]
    exact ⟨rfl, rfl⟩

/-- Whether a piece is a run in which no span and no literal begins or ends, or a balanced span. -/
def Span.WellFormed : Span → Prop
  | .plain run => IsRun run
  | .braced content => Balanced content

/-- Whether a part of a piece's text ends between the braces of the piece. -/
def Span.Inside (part : List Char) : Span → Prop
  | .plain _ => False
  | .braced content => ∃ inner, part = '\x7b' :: inner ∧ inner <+: content

/-- No brace is open behind a piece. -/
theorem foldl_bracesOpen_source {piece : Span} (h : piece.WellFormed) :
    piece.source.foldl bracesOpen 0 = 0 := by
  cases piece with
  | plain run => exact foldl_bracesOpen_of_notMem (IsRun.noOpen h)
  | braced content =>
    have hcontent := foldl_bracesOpen (Balanced.closes h) 1
    rw [Balanced.depthBehind_eq h, Nat.zero_add] at hcontent
    rw [Span.source, List.foldl_append, List.foldl_cons]
    change [_].foldl bracesOpen (content.foldl bracesOpen 1) = 0
    rw [hcontent]
    rfl

/-- Behind a part of a piece a brace is open if the part ends in a span. -/
theorem foldl_bracesOpen_part {piece : Span} {part : List Char} (h : piece.WellFormed)
    (hpart : part <+: piece.source) : 0 < part.foldl bracesOpen 0 ↔ piece.Inside part := by
  cases piece with
  | plain run =>
    have hopen : '\x7b' ∉ part := fun hmem => IsRun.noOpen h (hpart.subset hmem)
    rw [foldl_bracesOpen_of_notMem hopen]
    exact iff_of_false (Nat.lt_irrefl 0) id
  | braced content =>
    have hempty : ¬ (Span.braced content).Inside [] := by
      rintro ⟨inner, hinner, -⟩
      cases hinner
    obtain rfl | hpart := List.prefix_concat_iff.mp hpart
    · refine iff_of_false (Nat.not_lt_of_le (foldl_bracesOpen_source h).le) ?_
      rintro ⟨inner, hinner, hprefix⟩
      obtain rfl : content ++ ['\x7d'] = inner := (List.cons.inj hinner).2
      have hlength := hprefix.length_le
      rw [List.length_append, List.length_singleton] at hlength
      omega
    obtain rfl | ⟨inner, rfl, hinner⟩ := List.prefix_cons_iff.mp hpart
    · exact iff_of_false (Nat.lt_irrefl 0) hempty
    · have hcloses : ClosesWithin 0 inner := fun part hpart =>
        Balanced.closes h part (hpart.trans hinner)
      have hopen := foldl_bracesOpen hcloses 1
      rw [Nat.zero_add] at hopen
      refine iff_of_true ?_ ⟨inner, rfl, hinner⟩
      change 0 < inner.foldl bracesOpen 1
      rw [hopen]
      exact Nat.succ_pos _

/-- A literal does not end in a piece. -/
theorem closingAngle?_source {piece : Span} (h : piece.WellFormed) (more : List Char) :
    closingAngle? 0 (piece.source ++ more) =
      (closingAngle? 0 more).map (· + piece.source.length) := by
  cases piece with
  | plain run => exact closingAngle?_run h more
  | braced content =>
    have hbraced := closingAngle?_braced h more
    rw [Span.source, List.append_assoc, List.singleton_append, hbraced, List.length_append]
    rfl

/-- What the pieces of a literal have to do with the search for its end: a brace is open for it
exactly where a span is. -/
structure Aligned (pieces : List Span) : Prop where
  runs : ∀ run, .plain run ∈ pieces → IsRun run
  depth : ∀ before piece after, pieces = before ++ piece :: after → ∀ part, part <+: piece.source →
    (0 < (before.flatMap Span.source ++ part).foldl bracesOpen 0 ↔ piece.Inside part)

/-- No brace is open behind pieces. -/
theorem foldl_bracesOpen_flatMap {pieces : List Span} (h : ∀ piece ∈ pieces, piece.WellFormed) :
    (pieces.flatMap Span.source).foldl bracesOpen 0 = 0 := by
  induction pieces with
  | nil => rfl
  | cons piece pieces ih =>
    rw [List.forall_mem_cons] at h
    rw [List.flatMap_cons, List.foldl_append, foldl_bracesOpen_source h.1, ih h.2]

theorem aligned_of_wellFormed {pieces : List Span} (h : ∀ piece ∈ pieces, piece.WellFormed) :
    Aligned pieces := by
  refine ⟨fun run hmem => h _ hmem, ?_⟩
  rintro before piece after rfl part hpart
  rw [List.forall_mem_append, List.forall_mem_cons] at h
  rw [List.foldl_append, foldl_bracesOpen_flatMap h.1]
  exact foldl_bracesOpen_part h.2.1 hpart

theorem encloses_of_wellFormed {pieces : List Span} (h : ∀ piece ∈ pieces, piece.WellFormed) :
    Encloses 0 (pieces.flatMap Span.source) := by
  rw [encloses_iff]
  induction pieces with
  | nil => rfl
  | cons piece pieces ih =>
    rw [List.forall_mem_cons] at h
    rw [List.flatMap_cons, List.append_assoc, closingAngle?_source h.1, ih h.2, List.length_append,
      Nat.add_comm]
    rfl

/-- A run in which every `>` has an open brace in front of it and every brace is closed, though none
is closed in what follows. -/
theorem isRun_of_encloses {run more : List Char} (h : Encloses 0 (run ++ more))
    (hopen : ∀ front back, run = front ++ '\x7b' :: back → ¬ ClosesBrace (back ++ more)) :
    IsRun run := by
  have hnoOpen : '\x7b' ∉ run := by
    -- a brace of the run would still be open behind the whole text
    intro hmem
    obtain ⟨front, back, rfl⟩ := List.append_of_mem hmem
    have hstays := foldl_bracesOpen_ne_zero
      (not_closesBrace_iff.mp (hopen front back rfl)) (front.foldl bracesOpen 0)
    have hclosed := h.closed
    rw [List.append_assoc, List.foldl_append] at hclosed
    exact hstays hclosed
  -- so none is open in front of a `>` of the run, which would end the literal
  refine ⟨hnoOpen, fun hmem => ?_⟩
  obtain ⟨front, back, rfl⟩ := List.append_of_mem hmem
  refine h.inside front (back ++ more) (List.append_assoc front _ more) ?_
  exact foldl_bracesOpen_of_notMem fun hmem => hnoOpen (List.mem_append_left _ hmem)

/-- The pieces of a text that encloses every `>` in it. -/
theorem Divided.wellFormed {pieces : List Span} (h : Divided pieces)
    (hencloses : Encloses 0 (pieces.flatMap Span.source)) :
    ∀ piece ∈ pieces, piece.WellFormed := by
  induction h with
  | nil => exact fun piece hmem => absurd hmem List.not_mem_nil
  | @braced content others hbalanced _ ih =>
    have hpiece : (Span.braced content).WellFormed := hbalanced
    have hothers := hencloses.of_append
    rw [foldl_bracesOpen_source hpiece] at hothers
    exact List.forall_mem_cons.mpr ⟨hpiece, ih hothers⟩
  | @plain run others _ _ hopen _ ih =>
    have hpiece : (Span.plain run).WellFormed := isRun_of_encloses hencloses hopen
    have hothers := hencloses.of_append
    rw [foldl_bracesOpen_source hpiece] at hothers
    exact List.forall_mem_cons.mpr ⟨hpiece, ih hothers⟩

/-- Every text is divided in one way, without loss, into balanced spans and runs that are as long as
they can be. It is the text of a closed literal exactly if the search for the end of a literal
counts its braces in the same way. -/
theorem spans_divided (text : List Char) :
    (∀ pieces, spans text = pieces ↔ pieces.flatMap Span.source = text ∧ Divided pieces) ∧
      (IsContent text ↔ Aligned (spans text)) := by
  refine ⟨fun pieces => spans_eq_iff, ?_⟩
  have hdivided := divided_spans text
  rw [isContent_iff]
  constructor
  · intro h
    exact aligned_of_wellFormed (hdivided.wellFormed (by rwa [flatMap_source_spans]))
  · intro h
    have hpieces : ∀ piece ∈ spans text, piece.WellFormed := by
      intro piece hmem
      cases piece with
      | plain run => exact h.runs run hmem
      | braced content => exact hdivided.balanced content hmem
    rw [← flatMap_source_spans text]
    exact encloses_of_wellFormed hpieces

example : spans "a\x7db\x7bc\x7bd\x7d\x7d\x7be".toList =
    [.plain "a\x7db".toList, .braced "c\x7bd\x7d".toList, .plain "\x7be".toList] := by cbv

end Animatic.Script.Literal
