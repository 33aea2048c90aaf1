import Mathlib.Data.List.Forall2
import Animatic.Proofs.Script.Blame
import Animatic.Proofs.Script.Braces
import Animatic.Proofs.Script.Lexing

/-!
# Literals inside literals

A literal in a span is shorter than the literal around it, so reading ends at every depth, and the
limit on the depth is never felt.

* `length_lt_of_literal_mem`: a literal is shorter than the text that it stands in.
* `splice_eq`: the parts of a literal are its runs and what its spans read as on their own.
-/

namespace Animatic.Script

variable {α β : Type} {tokens : List Token}

/-! ## Literals are shorter than what they stand in -/

private theorem Spelling.length_lt {style : LiteralStyle} {content : String} {text : List Char}
    {problem : Option Problem} (h : Spelling (.literal style content) text problem) :
    content.toList.length < text.length := by
  generalize hkind : Token.Kind.literal style content = kind at h
  have hopener {style : LiteralStyle} {opener : List Char} {closer : Char}
      (h : style.Delimits opener closer) : 0 < opener.length := by
    cases h <;> exact Nat.succ_pos _
  cases h with
  | closed hdelimits text =>
    obtain ⟨-, rfl⟩ := Token.Kind.literal.inj hkind
    have hpos := hopener hdelimits
    rw [String.toList_ofList, List.length_append, List.length_append]
    omega
  | unclosed hdelimits text =>
    obtain ⟨-, rfl⟩ := Token.Kind.literal.inj hkind
    have hpos := hopener hdelimits
    rw [String.toList_ofList, List.length_append]
    omega
  | _ => cases hkind

private theorem Cut.length_lt {position : Position} {text : List Char}
    {diagnostics : List Diagnostic}
    (h : Cut position text tokens diagnostics) {token : Token} (hmem : token ∈ tokens)
    {style : LiteralStyle} {content : String} (hkind : token.kind = .literal style content) :
    content.toList.length < text.length := by
  induction h with
  | finish =>
    obtain rfl := List.mem_singleton.mp hmem
    cases hkind
  | @token position trivia text rest first kind problem tokens diagnostics _ _ hspelling _ _ ih =>
    rw [List.length_append, List.length_append]
    obtain rfl | hmem := List.mem_cons.mp hmem
    · obtain rfl : kind = .literal style content := hkind
      have hlt := hspelling.length_lt
      omega
    · have hlt := ih hmem
      omega

/-- A literal is shorter than the text that it stands in. -/
theorem TokenStream.length_lt_of_literal_mem {position : Position} {text : List Char}
    {token : Token} (hmem : token ∈ (ofText position text).tokens) {style : LiteralStyle}
    {content : String} (hkind : token.kind = .literal style content) :
    content.toList.length < text.length :=
  (scan_cut false position text).length_lt hmem hkind

/-! ## The limit on the depth -/

/-- The part that a piece stands for: a span is read as a text of its own. -/
def partOf (position : Position) : Literal.Span → Except Diagnostic Part
  | .plain run => .ok (.text (String.ofList run))
  | .braced content => .expr <$> Expr.ofTokens (TokenStream.ofText position content).tokens

private theorem mapM_congr {f g : α → Except Diagnostic β} {items : List α}
    (h : ∀ item ∈ items, f item = g item) : items.mapM f = items.mapM g := by
  induction items with
  | nil => rfl
  | cons item rest ih =>
    rw [List.forall_mem_cons] at h
    rw [List.mapM_cons, List.mapM_cons, h.1, ih h.2]

/-- A list is read if each of its items is. -/
theorem mapM_eq_ok {f : α → Except Diagnostic β} {items : List α} {results : List β} :
    items.mapM f = .ok results ↔
      List.Forall₂ (fun item result => f item = .ok result) items results := by
  induction items generalizing results with
  | nil =>
    rw [List.forall₂_nil_left_iff, List.mapM_nil]
    exact ⟨fun h => (Except.ok.inj h).symm, fun h => congrArg Except.ok h.symm⟩
  | cons item rest ih =>
    rw [List.mapM_cons, List.forall₂_cons_left_iff]
    constructor
    · intro h
      cases hitem : f item with
      | error d =>
        rw [hitem] at h
        cases h
      | ok result =>
        cases hrest : rest.mapM f with
        | error d =>
          rw [hitem, hrest] at h
          cases h
        | ok others =>
          rw [hitem, hrest] at h
          exact ⟨result, others, rfl, ih.mp hrest, (Except.ok.inj h).symm⟩
    · rintro ⟨result, others, hitem, hrest, rfl⟩
      rw [hitem, ih.mpr hrest]
      rfl

/-- Limits that a literal does not reach make no difference to it. -/
theorem spliceWithin_congr {depth depth' : Nat} {text : List Char} (h : text.length ≤ depth)
    (h' : text.length ≤ depth') (position : Position) :
    spliceWithin depth position text = spliceWithin depth' position text := by
  induction depth generalizing depth' text position with
  | zero =>
    obtain rfl := List.length_eq_zero_iff.mp (Nat.le_zero.mp h)
    cases depth' with
    | zero => rfl
    | succ depth' => rw [spliceWithin, spliceWithin, Literal.spans]; rfl
  | succ depth ih =>
    cases depth' with
    | zero =>
      obtain rfl := List.length_eq_zero_iff.mp (Nat.le_zero.mp h')
      rw [spliceWithin, spliceWithin, Literal.spans]
      rfl
    | succ depth' =>
      rw [spliceWithin, spliceWithin]
      refine mapM_congr fun span hmem => ?_
      cases span with
      | plain run => rfl
      | braced content =>
        have hcontent := Literal.length_lt_of_braced_mem hmem
        refine congrArg (Part.expr <$> ·) (standalone_congr fun token htoken inner hkind => ?_)
        have hinner := TokenStream.length_lt_of_literal_mem htoken hkind
        exact ih (by omega) (by omega) token.position

/-- The parts of a literal are its runs and what its spans read as on their own. -/
theorem splice_eq (position : Position) (text : List Char) :
    Script.splice position text = (Literal.spans text).mapM (partOf position) := by
  have hnested : Script.splice position text = spliceWithin (text.length + 1) position text :=
    spliceWithin_congr (Nat.le_refl _) (Nat.le_succ _) position
  rw [hnested, spliceWithin]
  refine mapM_congr fun span hmem => ?_
  cases span with
  | plain run => rfl
  | braced content =>
    have hcontent := Literal.length_lt_of_braced_mem hmem
    refine congrArg (Part.expr <$> ·) (standalone_congr fun token htoken inner hkind => ?_)
    have hinner := TokenStream.length_lt_of_literal_mem htoken hkind
    exact spliceWithin_congr (by omega) (Nat.le_refl _) token.position

end Animatic.Script
