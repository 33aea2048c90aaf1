import Mathlib
import Animatic.Proofs.Script.Joining

/-!
# Expressions at other places

What a text reads as on its own does not depend on where it stands, but for the positions.

* `Position.onto`: the map of positions under which a text that stands in front of everything comes
  to stand anywhere else.
* `ofTokens_relocate`: what a moved text reads as.
* `ofTokens_elsewhere`, `ofText_clean_elsewhere`: a text at two places.
-/

namespace Animatic.Script

namespace Position

/-- The position in front of every other one. -/
def origin : Position := ⟨0, 0⟩

/-- Where a text that stands at the origin comes to stand when it is moved to a place: its first
line goes on from there, and the others follow. -/
def onto (place position : Position) : Position :=
  ⟨position.line + place.line,
    if position.line = 0 then position.column + place.column else position.column⟩

theorem onto_origin (place : Position) : onto place origin = place := by
  rw [onto, origin, Nat.zero_add, if_pos rfl, Nat.zero_add]

theorem onto_relocation (place : Position) : Relocation (onto place) where
  next position c := by
    unfold next
    split
    · simp only [onto, Nat.add_one_ne_zero, if_false, Position.mk.injEq, and_true]
      omega
    · simp only [onto, Position.mk.injEq, true_and]
      split <;> omega
  line p q := by simp only [onto]; omega

end Position

/-- What a text reads as at another place. -/
theorem ofTokens_relocate {f : Position → Position} (hf : Position.Relocation f)
    (position : Position) (text : List Char) :
    Expr.ofTokens (TokenStream.ofText (f position) text).tokens =
      relocateOutcome f (Expr.relocate f)
        (Expr.ofTokens (TokenStream.ofText position text).tokens) := by
  obtain ⟨part, hpart⟩ := TokenStream.exists_inner false position text
  let e := Exchange.moved hf splice (splice_relocate hf) (position.advance text)
  have hmoved := Exchange.standalone_relocate (e := e) ⟨rfl, rfl⟩ part
  rw [Exchange.after_eq_map ⟨rfl, rfl⟩] at hmoved
  rw [TokenStream.ofText, TokenStream.ofText, TokenStream.scan_relocate hf, hpart]
  exact hmoved

/-- Two outcomes of reading an expression that differ in positions alone. -/
inductive SameUnplaced : Except Diagnostic Expr → Except Diagnostic Expr → Prop where
  | ok {value value' : Expr} (h : value'.unplaced = value.unplaced) :
    SameUnplaced (.ok value) (.ok value')
  | error {d d' : Diagnostic} (h : d'.problem = d.problem) : SameUnplaced (.error d) (.error d')

/-- What a text reads as on its own is the same at every place, up to positions. -/
theorem ofTokens_elsewhere (place place' : Position) (text : List Char) :
    SameUnplaced (Expr.ofTokens (TokenStream.ofText place text).tokens)
      (Expr.ofTokens (TokenStream.ofText place' text).tokens) := by
  have hplace (place : Position) := ofTokens_relocate (Position.onto_relocation place) .origin text
  have hhere := hplace place
  have hthere := hplace place'
  rw [Position.onto_origin] at hhere hthere
  rw [hhere, hthere]
  cases Expr.ofTokens (TokenStream.ofText .origin text).tokens with
  | ok value => exact .ok (by rw [Expr.unplaced_relocate, Expr.unplaced_relocate])
  | error d => exact .error rfl

theorem SameUnplaced.of_ok {value : Expr} {outcome : Except Diagnostic Expr}
    (h : SameUnplaced (.ok value) outcome) :
    ∃ value', outcome = .ok value' ∧ value'.unplaced = value.unplaced := by
  cases h with
  | ok h => exact ⟨_, rfl, h⟩

theorem SameUnplaced.of_error {d : Diagnostic} {outcome : Except Diagnostic Expr}
    (h : SameUnplaced (.error d) outcome) :
    ∃ d', outcome = .error d' ∧ d'.problem = d.problem := by
  cases h with
  | error h => exact ⟨_, rfl, h⟩

/-- A text without lexical problems has none at another place. -/
theorem ofText_clean_elsewhere {place : Position} {text : List Char}
    (h : (TokenStream.ofText place text).diagnostics = []) (place' : Position) :
    (TokenStream.ofText place' text).diagnostics = [] := by
  have hplace (place : Position) :=
    TokenStream.scan_relocate (Position.onto_relocation place) false .origin text
  have hhere := hplace place
  have hthere := hplace place'
  rw [Position.onto_origin] at hhere hthere
  rw [TokenStream.ofText, hhere] at h
  rw [TokenStream.ofText, hthere]
  dsimp only at h ⊢
  rw [List.map_eq_nil_iff.mp h, List.map_nil]

theorem ofTokens_of_outcome {tokens rest : List Token} {value : Expr}
    (h : (expression splice true tokens).outcome = .ok (value, rest))
    (hrest : (front rest).kind = .finish) : Expr.ofTokens tokens = .ok value := by
  obtain ⟨_, hread⟩ := Read.eq_ok h
  rw [Expr.ofTokens, standalone, hread]
  dsimp only [bind, Except.bind]
  rw [if_pos (isFinish_iff.mpr hrest)]
  rfl

theorem ofTokens_of_outcome_error {tokens : List Token} {d : Diagnostic}
    (h : (expression splice true tokens).outcome = .error d) : Expr.ofTokens tokens = .error d := by
  rw [Expr.ofTokens, standalone, Read.eq_error h]
  rfl

/-- An expression that takes up all of some tokens. -/
theorem outcome_of_ofTokens {tokens : List Token} {value : Expr}
    (h : Expr.ofTokens tokens = .ok value) :
    ∃ rest, (expression splice true tokens).outcome = .ok (value, rest) ∧
      (front rest).kind = .finish := by
  rw [Expr.ofTokens, standalone] at h
  cases hread : expression splice true tokens with
  | error d =>
    rw [hread] at h
    cases h
  | ok reading =>
    rw [hread] at h
    dsimp only [bind, Except.bind] at h
    split at h
    · rename_i hfinish
      obtain rfl := Except.ok.inj h
      exact ⟨reading.rest, rfl, isFinish_iff.mp hfinish⟩
    · cases h

end Animatic.Script
