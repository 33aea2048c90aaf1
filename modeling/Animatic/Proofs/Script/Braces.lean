import Mathlib.Data.List.Infix
import Animatic.Script.Lexeme
import Animatic.Script.Literal

/-!
# Braces in literals

A literal ends at the first `>` outside its braces, and its pieces are told apart by its braces.
Where the braces balance, both ways of counting them agree.

* `Balanced`: every closing brace of a text closes one that the text opens.
* `ClosesBrace`: a brace in front of a text is closed in it.
* `spans_induction`: how a text falls into pieces.
* `Span.source`, `flatMap_source_spans`: the pieces of a literal make up its text.
* `Template`: runs of text and balanced spans in turn.
* `Template.spans_content`, `Template.closingAngle?_content`: its pieces, and where it ends.
-/

namespace Animatic.Script

namespace Literal

/-! ## Balanced texts -/

/-- No part in front of a text closes more braces than it opens, `depth` open ones aside. -/
def ClosesWithin (depth : Nat) (text : List Char) : Prop :=
  ∀ part, part <+: text → part.count '\x7d' ≤ part.count '\x7b' + depth

/-- Every closing brace of a text closes one that the text opens, and none stays open. -/
structure Balanced (text : List Char) : Prop where
  closes : ClosesWithin 0 text
  even : text.count '\x7d' = text.count '\x7b'

instance (depth : Nat) (text : List Char) : Decidable (ClosesWithin depth text) :=
  decidable_of_iff (∀ part ∈ text.inits, part.count '\x7d' ≤ part.count '\x7b' + depth)
    (forall_congr' fun part => by rw [List.mem_inits])

instance (text : List Char) : Decidable (Balanced text) :=
  decidable_of_iff (ClosesWithin 0 text ∧ text.count '\x7d' = text.count '\x7b')
    ⟨fun h => ⟨h.1, h.2⟩, fun h => ⟨h.closes, h.even⟩⟩

theorem ClosesWithin.of_open {depth : Nat} {rest : List Char}
    (h : ClosesWithin depth ('\x7b' :: rest)) : ClosesWithin (depth + 1) rest := by
  intro part hpart
  have hle := h ('\x7b' :: part) (List.cons_prefix_cons.mpr ⟨rfl, hpart⟩)
  rw [List.count_cons_self, List.count_cons_of_ne (by decide)] at hle
  omega

/-- A closing brace closes an open one. -/
theorem ClosesWithin.of_close {depth : Nat} {rest : List Char}
    (h : ClosesWithin depth ('\x7d' :: rest)) :
    ∃ outer, depth = outer + 1 ∧ ClosesWithin outer rest := by
  have hpart (part : List Char) (hpart : part <+: rest) :
      part.count '\x7d' + 1 ≤ part.count '\x7b' + depth := by
    have hle := h ('\x7d' :: part) (List.cons_prefix_cons.mpr ⟨rfl, hpart⟩)
    rwa [List.count_cons_self, List.count_cons_of_ne (by decide)] at hle
  have hpos : 1 ≤ depth := by simpa using hpart [] List.nil_prefix
  obtain ⟨outer, rfl⟩ := Nat.exists_eq_add_of_le' hpos
  refine ⟨outer, rfl, fun part h => ?_⟩
  have hle := hpart part h
  omega

theorem ClosesWithin.of_other {depth : Nat} {c : Char} {rest : List Char}
    (h : ClosesWithin depth (c :: rest)) (hopen : c ≠ '\x7b') (hclose : c ≠ '\x7d') :
    ClosesWithin depth rest := by
  intro part hpart
  have hle := h (c :: part) (List.cons_prefix_cons.mpr ⟨rfl, hpart⟩)
  rwa [List.count_cons_of_ne hopen, List.count_cons_of_ne hclose] at hle

/-- A text that closes open braces is empty or starts with a brace that opens, one that closes or
another character. -/
@[elab_as_elim]
theorem ClosesWithin.induction
    {motive : (depth : Nat) → (text : List Char) → ClosesWithin depth text → Prop}
    (nil : ∀ depth h, motive depth [] h)
    (opens : ∀ depth rest h (hrest : ClosesWithin (depth + 1) rest),
      motive (depth + 1) rest hrest → motive depth ('\x7b' :: rest) h)
    (closes : ∀ depth rest h (hrest : ClosesWithin depth rest),
      motive depth rest hrest → motive (depth + 1) ('\x7d' :: rest) h)
    (other : ∀ depth c rest h (hrest : ClosesWithin depth rest), c ≠ '\x7b' → c ≠ '\x7d' →
      motive depth rest hrest → motive depth (c :: rest) h)
    {depth : Nat} {text : List Char} (h : ClosesWithin depth text) : motive depth text h := by
  induction text generalizing depth with
  | nil => exact nil depth h
  | cons c rest ih =>
    by_cases hopen : c = '\x7b'
    · subst hopen
      exact opens depth rest h h.of_open (ih h.of_open)
    by_cases hclose : c = '\x7d'
    · subst hclose
      obtain ⟨depth, rfl, hrest⟩ := h.of_close
      exact closes depth rest h hrest (ih hrest)
    · have hrest := h.of_other hopen hclose
      exact other depth c rest h hrest hopen hclose (ih hrest)

private theorem ClosesWithin.cons {depth : Nat} {c : Char} {rest : List Char}
    (h : ∀ part, part <+: rest → (c :: part).count '\x7d' ≤ (c :: part).count '\x7b' + depth) :
    ClosesWithin depth (c :: rest) := by
  intro part hpart
  obtain rfl | ⟨inner, rfl, hinner⟩ := List.prefix_cons_iff.mp hpart
  · exact Nat.zero_le _
  · exact h inner hinner

theorem ClosesWithin.cons_open {depth : Nat} {rest : List Char}
    (h : ClosesWithin (depth + 1) rest) : ClosesWithin depth ('\x7b' :: rest) := by
  refine .cons fun part hpart => ?_
  have hle := h part hpart
  rw [List.count_cons_self, List.count_cons_of_ne (by decide)]
  omega

theorem ClosesWithin.cons_close {depth : Nat} {rest : List Char} (h : ClosesWithin depth rest) :
    ClosesWithin (depth + 1) ('\x7d' :: rest) := by
  refine .cons fun part hpart => ?_
  have hle := h part hpart
  rw [List.count_cons_self, List.count_cons_of_ne (by decide)]
  omega

theorem ClosesWithin.cons_other {depth : Nat} {c : Char} {rest : List Char}
    (h : ClosesWithin depth rest) (hopen : c ≠ '\x7b') (hclose : c ≠ '\x7d') :
    ClosesWithin depth (c :: rest) := by
  refine .cons fun part hpart => ?_
  rw [List.count_cons_of_ne hopen, List.count_cons_of_ne hclose]
  exact h part hpart

/-- The number of braces that are open behind a text. -/
def depthBehind (depth : Nat) (text : List Char) : Nat :=
  depth + text.count '\x7b' - text.count '\x7d'

theorem depthBehind_open (depth : Nat) (rest : List Char) :
    depthBehind depth ('\x7b' :: rest) = depthBehind (depth + 1) rest := by
  rw [depthBehind, depthBehind, List.count_cons_self, List.count_cons_of_ne (by decide)]
  omega

theorem depthBehind_close (depth : Nat) (rest : List Char) :
    depthBehind (depth + 1) ('\x7d' :: rest) = depthBehind depth rest := by
  rw [depthBehind, depthBehind, List.count_cons_self, List.count_cons_of_ne (by decide)]
  omega

theorem depthBehind_other {c : Char} (hopen : c ≠ '\x7b') (hclose : c ≠ '\x7d') (depth : Nat)
    (rest : List Char) : depthBehind depth (c :: rest) = depthBehind depth rest := by
  rw [depthBehind, depthBehind, List.count_cons_of_ne hopen, List.count_cons_of_ne hclose]

theorem Balanced.depthBehind_eq {text : List Char} (h : Balanced text) (depth : Nat) :
    depthBehind depth text = depth := by
  rw [depthBehind, h.even]
  omega

/-! ## Where braces close -/

private theorem map_succ_map (length : Nat) (found : Option Nat) :
    (found.map (· + length)).map (· + 1) = found.map (· + (length + 1)) := by
  cases found <;> rfl

theorem closingBrace?_cons {c : Char} (h : c ≠ '\x7d') (depth : Nat) (rest : List Char) :
    closingBrace? depth (c :: rest) =
      (closingBrace? (if c = '\x7b' then depth + 1 else depth) rest).map (· + 1) :=
  if_neg h

/-- The search for the brace that closes a span goes on behind a text that does not close it. -/
theorem closingBrace?_append {depth : Nat} {text : List Char} (h : ClosesWithin depth text)
    (more : List Char) :
    closingBrace? depth (text ++ more) =
      (closingBrace? (depthBehind depth text) more).map (· + text.length) := by
  induction h using ClosesWithin.induction with
  | nil depth =>
    change closingBrace? depth more = (closingBrace? depth more).map id
    rw [Option.map_id_fun, id]
  | opens depth rest _ _ ih =>
    rw [List.cons_append, closingBrace?_cons (by decide), if_pos rfl, ih, map_succ_map,
      depthBehind_open, List.length_cons]
  | closes depth rest _ _ ih =>
    rw [depthBehind_close, List.length_cons, ← map_succ_map, ← ih]
    rfl
  | other depth c rest _ _ hopen hclose ih =>
    rw [List.cons_append, closingBrace?_cons hclose, if_neg hopen, ih, map_succ_map,
      depthBehind_other hopen hclose, List.length_cons]

/-- What is found is the brace behind a text that closes all that is open and opens nothing that it
does not close. -/
theorem closingBrace?_eq_some_iff {depth length : Nat} {text : List Char} :
    closingBrace? depth text = some length ↔
      ∃ inner more, text = inner ++ '\x7d' :: more ∧ inner.length = length ∧
        ClosesWithin depth inner ∧ depthBehind depth inner = 0 := by
  refine ⟨fun h => ?_, ?_⟩
  · fun_induction closingBrace? depth text generalizing length with
    | case1 => cases h
    | case2 rest =>
      obtain rfl := Option.some.inj h
      exact ⟨[], rest, rfl, rfl, fun part hpart => by rw [List.prefix_nil.mp hpart]; rfl, rfl⟩
    | case3 rest depth ih =>
      obtain ⟨_, hinner, rfl⟩ := Option.map_eq_some_iff.mp h
      obtain ⟨inner, more, rfl, rfl, hcloses, hdepth⟩ := ih hinner
      exact ⟨_, more, rfl, rfl, hcloses.cons_close, by rwa [depthBehind_close]⟩
    | case4 depth c rest hclose ih =>
      obtain ⟨_, hinner, rfl⟩ := Option.map_eq_some_iff.mp h
      obtain ⟨inner, more, rfl, rfl, hcloses, hdepth⟩ := ih hinner
      refine ⟨c :: inner, more, rfl, rfl, ?_⟩
      by_cases hopen : c = '\x7b'
      · subst hopen
        rw [if_pos rfl] at hcloses hdepth
        exact ⟨hcloses.cons_open, by rwa [depthBehind_open]⟩
      · rw [if_neg hopen] at hcloses hdepth
        exact ⟨hcloses.cons_other hopen hclose, by rwa [depthBehind_other hopen hclose]⟩
  · rintro ⟨inner, more, rfl, rfl, hcloses, hdepth⟩
    rw [closingBrace?_append hcloses, hdepth]
    exact congrArg some (Nat.zero_add _)

theorem balanced_iff {text : List Char} :
    Balanced text ↔ ClosesWithin 0 text ∧ depthBehind 0 text = 0 := by
  refine ⟨fun h => ⟨h.closes, h.depthBehind_eq 0⟩, fun ⟨hcloses, hdepth⟩ => ⟨hcloses, ?_⟩⟩
  have hle := hcloses text List.prefix_rfl
  rw [depthBehind] at hdepth
  omega

/-- The brace that balances an opening one stands behind a balanced text. -/
theorem closingBrace?_zero {length : Nat} {text : List Char} :
    closingBrace? 0 text = some length ↔
      ∃ inner more, text = inner ++ '\x7d' :: more ∧ inner.length = length ∧ Balanced inner := by
  simp only [closingBrace?_eq_some_iff, balanced_iff]

/-- Whether a brace in front of a text is closed in it. -/
def ClosesBrace (text : List Char) : Prop :=
  ∃ content more, text = content ++ '\x7d' :: more ∧ Balanced content

theorem closesBrace_of_eq_some {length : Nat} {text : List Char}
    (h : closingBrace? 0 text = some length) : ClosesBrace text := by
  obtain ⟨content, more, htext, -, hbalanced⟩ := closingBrace?_zero.mp h
  exact ⟨content, more, htext, hbalanced⟩

theorem not_closesBrace_iff {text : List Char} :
    ¬ ClosesBrace text ↔ closingBrace? 0 text = none := by
  refine ⟨fun h => Option.eq_none_iff_forall_ne_some.mpr fun length hsome =>
    h (closesBrace_of_eq_some hsome), ?_⟩
  rintro hnone ⟨content, more, htext, hbalanced⟩
  rw [closingBrace?_zero.mpr ⟨content, more, htext, rfl, hbalanced⟩] at hnone
  cases hnone

end Literal

theorem closingAngle?_cons {depth : Nat} {c : Char} (h : ¬ (c = '>' ∧ depth = 0))
    (rest : List Char) :
    closingAngle? depth (c :: rest) =
      (closingAngle? (if c = '\x7b' then depth + 1 else if c = '\x7d' then depth - 1 else depth)
        rest).map (· + 1) := by
  rw [closingAngle?, if_neg h]

open Literal in
/-- A literal does not end inside its braces. -/
theorem closingAngle?_append {depth : Nat} {text : List Char} (h : ClosesWithin depth text)
    (more : List Char) :
    closingAngle? (depth + 1) (text ++ more) =
      (closingAngle? (depthBehind depth text + 1) more).map (· + text.length) := by
  induction h using ClosesWithin.induction with
  | nil depth =>
    change closingAngle? (depth + 1) more = (closingAngle? (depth + 1) more).map id
    rw [Option.map_id_fun, id]
  | opens depth rest _ _ ih =>
    rw [List.cons_append, closingAngle?_cons fun h => Nat.add_one_ne_zero depth h.2, if_pos rfl, ih,
      map_succ_map, depthBehind_open, List.length_cons]
  | closes depth rest _ _ ih =>
    rw [depthBehind_close, List.length_cons, ← map_succ_map, ← ih]
    rfl
  | other depth c rest _ _ hopen hclose ih =>
    rw [List.cons_append, closingAngle?_cons fun h => Nat.add_one_ne_zero depth h.2, if_neg hopen,
      if_neg hclose, ih, map_succ_map, depthBehind_other hopen hclose, List.length_cons]

namespace Literal

/-! ## Pieces -/

/-- The text of a piece. -/
def Span.source : Span → List Char
  | .plain run => run
  | .braced content => '\x7b' :: content ++ ['\x7d']

theorem flatMap_source_prepend (c : Char) (spans : List Span) :
    (prepend c spans).flatMap Span.source = c :: spans.flatMap Span.source := by
  unfold prepend
  split <;> rfl

/-- A balanced text in braces is a span. -/
theorem spans_braced {content : List Char} (h : Balanced content) (more : List Char) :
    spans ('\x7b' :: content ++ '\x7d' :: more) = .braced content :: spans more := by
  rw [List.cons_append, spans, if_pos rfl, closingBrace?_zero.mpr ⟨content, more, rfl, rfl, h⟩]
  dsimp only
  rw [List.take_left, ← List.drop_drop, List.drop_left]
  rfl

/-- Anything but a brace that is closed is plain text. -/
theorem spans_plain {c : Char} {rest : List Char} (h : c = '\x7b' → ¬ ClosesBrace rest) :
    spans (c :: rest) = prepend c (spans rest) := by
  have hnone : (if c = '\x7b' then closingBrace? 0 rest else none) = none := by
    split
    · exact not_closesBrace_iff.mp (h ‹_›)
    · rfl
  rw [spans, hnone]

/-- A text is empty, starts with a span or starts with a character that does not open one. -/
@[elab_as_elim]
theorem spans_induction {motive : List Char → Prop} (text : List Char) (nil : motive [])
    (braced : ∀ content more, Balanced content → motive more →
      motive ('\x7b' :: content ++ '\x7d' :: more))
    (plain : ∀ c rest, (c = '\x7b' → ¬ ClosesBrace rest) → motive rest → motive (c :: rest)) :
    motive text := by
  fun_induction spans text with
  | case1 => exact nil
  | case2 c rest length hspan ih =>
    obtain ⟨rfl, hclosing⟩ := Option.ite_none_right_eq_some.mp hspan
    obtain ⟨content, more, rfl, rfl, hbalanced⟩ := closingBrace?_zero.mp hclosing
    rw [← List.drop_drop, List.drop_left] at ih
    exact braced content more hbalanced ih
  | case3 c rest hspan ih =>
    refine plain c rest ?_ ih
    rintro rfl
    rw [dif_pos rfl] at hspan
    exact not_closesBrace_iff.mpr hspan

/-- The pieces of a literal make up its text. -/
theorem flatMap_source_spans (text : List Char) : (spans text).flatMap Span.source = text := by
  induction text using spans_induction with
  | nil => rw [spans, List.flatMap_nil]
  | braced content more hbalanced ih =>
    rw [spans_braced hbalanced, List.flatMap_cons, ih, Span.source, List.append_assoc]
    rfl
  | plain c rest hplain ih => rw [spans_plain hplain, flatMap_source_prepend, ih]

/-- A span is shorter than its literal. -/
theorem length_lt_of_braced_mem {content text : List Char}
    (h : Span.braced content ∈ spans text) : content.length < text.length := by
  have hmem : (Span.braced content).source ∈ (spans text).map Span.source :=
    List.mem_map_of_mem h
  have hle := (List.sublist_flatten_of_mem hmem).length_le
  rw [← List.flatMap_def] at hle
  rw [flatMap_source_spans, Span.source, List.length_append, List.length_cons,
    List.length_singleton] at hle
  omega

/-- A run of text as a piece, if it is not empty. -/
def plainRun : List Char → List Span
  | [] => []
  | c :: rest => [.plain (c :: rest)]

/-- A text in which no span and no literal ends or begins. -/
structure IsRun (run : List Char) : Prop where
  noOpen : '\x7b' ∉ run
  noAngle : '>' ∉ run

instance (run : List Char) : Decidable (IsRun run) :=
  decidable_of_iff ('\x7b' ∉ run ∧ '>' ∉ run)
    ⟨fun h => ⟨h.1, h.2⟩, fun h => ⟨h.noOpen, h.noAngle⟩⟩

/-- A run of text in front of a span or the end of a literal: a brace that opens in it is not closed
behind it. -/
theorem spans_append {run more : List Char}
    (hrun : ∀ front back, run = front ++ '\x7b' :: back → ¬ ClosesBrace (back ++ more))
    (hmore : ∀ rest others, spans more ≠ .plain rest :: others) :
    spans (run ++ more) = plainRun run ++ spans more := by
  induction run with
  | nil => rfl
  | cons c rest ih =>
    have hc : c = '\x7b' → ¬ ClosesBrace (rest ++ more) := fun hopen =>
      hrun [] rest (by rw [hopen]; rfl)
    have hrest := ih fun front back h => hrun (c :: front) back (by rw [h]; rfl)
    rw [List.cons_append, spans_plain hc, hrest]
    cases rest with
    | nil =>
      change prepend c (spans more) = .plain [c] :: spans more
      cases hspans : spans more with
      | nil => rfl
      | cons first others =>
        cases first with
        | plain other => exact absurd hspans (hmore other others)
        | braced content => rfl
    | cons d rest => rfl

/-- In a run of text no brace opens. -/
theorem not_closesBrace_of_notMem {run : List Char} (hrun : '\x7b' ∉ run) (more : List Char) :
    ∀ front back, run = front ++ '\x7b' :: back → ¬ ClosesBrace (back ++ more) := by
  rintro front back rfl
  exact absurd (List.mem_append_right front List.mem_cons_self) hrun

theorem spans_run {run : List Char} (hrun : '\x7b' ∉ run) : spans run = plainRun run := by
  have hnil : spans [] = [] := by rw [spans]
  have hnone : ∀ rest others, spans [] ≠ .plain rest :: others := fun rest others h =>
    List.cons_ne_nil _ _ (h.symm.trans hnil)
  have happend := spans_append (not_closesBrace_of_notMem hrun []) hnone
  rwa [hnil, List.append_nil, List.append_nil] at happend

/-- A literal does not end in a run of text. -/
theorem closingAngle?_run {run : List Char} (h : IsRun run) (more : List Char) :
    closingAngle? 0 (run ++ more) = (closingAngle? 0 more).map (· + run.length) := by
  induction run with
  | nil =>
    change closingAngle? 0 more = (closingAngle? 0 more).map id
    rw [Option.map_id_fun, id]
  | cons c rest ih =>
    obtain ⟨hnoOpen, hnoAngle⟩ := h
    rw [List.mem_cons, not_or] at hnoOpen hnoAngle
    obtain ⟨hopen, hrestOpen⟩ := hnoOpen
    obtain ⟨hangle, hrestAngle⟩ := hnoAngle
    rw [List.cons_append, closingAngle?_cons fun h => hangle h.1.symm, if_neg (Ne.symm hopen),
      Nat.zero_sub, ite_self, List.length_cons, ← map_succ_map rest.length,
      ← ih ⟨hrestOpen, hrestAngle⟩]

/-- A literal does not end in a span. -/
theorem closingAngle?_braced {text : List Char} (h : Balanced text) (more : List Char) :
    closingAngle? 0 ('\x7b' :: text ++ '\x7d' :: more) =
      (closingAngle? 0 more).map (· + (text.length + 2)) := by
  have hclose : closingAngle? 1 ('\x7d' :: more) = (closingAngle? 0 more).map (· + 1) := rfl
  change (closingAngle? 1 (text ++ '\x7d' :: more)).map (· + 1) = _
  rw [closingAngle?_append h.closes, h.depthBehind_eq, hclose, map_succ_map, Option.map_map]
  refine congrArg (Option.map · _) (funext fun length => ?_)
  simp only [Function.comp_apply]
  omega

/-! ## Templates -/

/-- Runs of text, each in front of the text of a span, and a last run. -/
structure Template where
  pieces : List (List Char × List Char)
  last : List Char

namespace Template

/-- Whether every run is one and the text of every span is balanced. -/
structure WellFormed (template : Template) : Prop where
  runs : ∀ piece ∈ template.pieces, IsRun piece.1
  spans : ∀ piece ∈ template.pieces, Balanced piece.2
  last : IsRun template.last

instance (template : Template) : Decidable template.WellFormed :=
  decidable_of_iff ((∀ piece ∈ template.pieces, IsRun piece.1) ∧
      (∀ piece ∈ template.pieces, Balanced piece.2) ∧ IsRun template.last)
    ⟨fun h => ⟨h.1, h.2.1, h.2.2⟩, fun h => ⟨h.runs, h.spans, h.last⟩⟩

/-- The inside of the literal. -/
def content (template : Template) : List Char :=
  template.pieces.foldr (fun piece more => piece.1 ++ ('\x7b' :: piece.2 ++ '\x7d' :: more))
    template.last

/-- The literal as it stands in a script. -/
def source (template : Template) : List Char := '$' :: '<' :: template.content ++ ['>']

theorem WellFormed.tail {run text : List Char} {pieces : List (List Char × List Char)}
    {last : List Char} (h : WellFormed ⟨(run, text) :: pieces, last⟩) :
    WellFormed ⟨pieces, last⟩ :=
  ⟨fun piece hmem => h.runs piece (List.mem_cons_of_mem _ hmem),
    fun piece hmem => h.spans piece (List.mem_cons_of_mem _ hmem), h.last⟩

/-- The pieces of the literal: its runs but the empty ones, and its spans, in their order. -/
theorem spans_content {template : Template} (h : template.WellFormed) :
    Literal.spans template.content =
      template.pieces.flatMap (fun piece => plainRun piece.1 ++ [.braced piece.2]) ++
        plainRun template.last := by
  obtain ⟨pieces, last⟩ := template
  induction pieces with
  | nil => exact spans_run h.last.noOpen
  | cons piece pieces ih =>
    obtain ⟨run, text⟩ := piece
    have hrun := h.runs _ List.mem_cons_self
    have hspans := spans_braced (h.spans _ List.mem_cons_self) (content ⟨pieces, last⟩)
    change Literal.spans (run ++ ('\x7b' :: text ++ '\x7d' :: content ⟨pieces, last⟩)) = _
    have hnone : ∀ rest others, Literal.spans ('\x7b' :: text ++ '\x7d' :: content ⟨pieces, last⟩) ≠
        .plain rest :: others := fun rest others h =>
      Span.noConfusion (List.cons.inj (h.symm.trans hspans)).1
    rw [spans_append (not_closesBrace_of_notMem hrun.noOpen _) hnone, hspans, ih h.tail,
      List.flatMap_cons, List.append_assoc, List.append_assoc]
    rfl

/-- The literal ends behind its content, whatever follows. -/
theorem closingAngle?_content {template : Template} (h : template.WellFormed) (more : List Char) :
    closingAngle? 0 (template.content ++ '>' :: more) = some template.content.length := by
  obtain ⟨pieces, last⟩ := template
  induction pieces with
  | nil =>
    refine (closingAngle?_run h.last _).trans ?_
    exact congrArg some (Nat.zero_add _)
  | cons piece pieces ih =>
    obtain ⟨run, text⟩ := piece
    have hcontent : content ⟨(run, text) :: pieces, last⟩ =
        run ++ ('\x7b' :: text ++ '\x7d' :: content ⟨pieces, last⟩) := rfl
    have hsource : content ⟨(run, text) :: pieces, last⟩ ++ '>' :: more =
        run ++ ('\x7b' :: text ++ '\x7d' :: (content ⟨pieces, last⟩ ++ '>' :: more)) := by
      simp only [hcontent, List.append_assoc, List.cons_append]
    rw [hsource, closingAngle?_run (h.runs _ List.mem_cons_self),
      closingAngle?_braced (h.spans _ List.mem_cons_self), ih h.tail, hcontent]
    simp only [Option.map_some, List.length_append, List.length_cons]
    congr 1
    omega

end Template

end Literal

end Animatic.Script
