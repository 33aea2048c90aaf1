import Mathlib
import Animatic.Proofs.Script.Joining

/-!
# Names in texts

A name is cut from a text where no character follows that could continue it, and white space around
it is skipped.

* `Lexeme.read_eq_name`: a character that starts a name starts nothing else.
* `TokenStream.scan_name`, `TokenStream.scan_blanks`: the tokens of a text with a name or with white
  space in front.
-/

namespace Animatic.Script

open Animatic.Text

/-! ## Characters -/

theorem ne_of_startsName {c d : Char} (h : startsName c = true) (hd : startsName d = false) :
    c ≠ d := by
  rintro rfl
  rw [h] at hd
  cases hd

/-- A class that no code point of a range is in has no character with such a code point. -/
private theorem eq_false_of_toNat (p : Char → Bool) {c : Char} {low high : Nat}
    (hlow : low ≤ c.toNat) (hhigh : c.toNat ≤ high)
    (h : ∀ n, low ≤ n → n ≤ high → p (Char.ofNat n) = false) : p c = false := by
  have hpoint := h c.toNat hlow hhigh
  rwa [Char.ofNat_toNat] at hpoint

theorem startsName_eq_false_of_isDigit {c : Char} (h : c.isDigit = true) :
    startsName c = false := by
  simp only [Char.isDigit, Bool.and_eq_true, decide_eq_true_eq, ge_iff_le,
    UInt32.le_iff_toNat_le] at h
  obtain ⟨hlow, hhigh⟩ := h
  change 48 ≤ c.toNat at hlow
  change c.toNat ≤ 57 at hhigh
  refine eq_false_of_toNat startsName hlow hhigh fun n hlow hhigh => ?_
  interval_cases n <;> decide

theorem continuesName_of_startsName {c : Char} (h : startsName c = true) :
    continuesName c = true := by
  rw [startsName, Bool.or_eq_true] at h
  rw [continuesName, Bool.or_eq_true, Bool.or_eq_true]
  exact h.imp_left .inl

/-- White space continues no name. -/
theorem continuesName_eq_false_of_isBlank {c : Char} (h : isBlank c = true) :
    continuesName c = false := by
  simp only [isBlank, Bool.or_eq_true, Bool.and_eq_true, decide_eq_true_eq, beq_iff_eq] at h
  have hpoint {point : Nat} (hpoint : c.toNat = point)
      (h : continuesName (Char.ofNat point) = false) : continuesName c = false := by
    rwa [← hpoint, Char.ofNat_toNat] at h
  obtain (((((((((⟨hlow, hhigh⟩ | h) | h) | h) | h) | ⟨hlow, hhigh⟩) | h) | h) | h) | h) | h := h
  · refine eq_false_of_toNat continuesName hlow hhigh fun n hlow hhigh => ?_
    interval_cases n <;> decide +kernel
  · exact hpoint h (by decide +kernel)
  · exact hpoint h (by decide +kernel)
  · exact hpoint h (by decide +kernel)
  · exact hpoint h (by decide +kernel)
  · refine eq_false_of_toNat continuesName hlow hhigh fun n hlow hhigh => ?_
    interval_cases n <;> decide +kernel
  · exact hpoint h (by decide +kernel)
  · exact hpoint h (by decide +kernel)
  · exact hpoint h (by decide +kernel)
  · exact hpoint h (by decide +kernel)
  · exact hpoint h (by decide +kernel)

/-- What starts a name is neither white space nor the beginning of a comment. -/
theorem beginsTrivia_eq_false_of_startsName {c : Char} (h : startsName c = true) :
    beginsTrivia c = false := by
  rw [beginsTrivia, Bool.or_eq_false_iff]
  refine ⟨Bool.eq_false_iff.mpr fun hblank => ?_, ?_⟩
  · exact Bool.noConfusion ((continuesName_of_startsName h).symm.trans
      (continuesName_eq_false_of_isBlank hblank))
  · exact beq_false_of_ne (ne_of_startsName h (by decide))

/-! ## Lexemes -/

namespace Lexeme

private theorem ofChar?_eq_none {c : Char} (h : startsName c = true) : Mark.ofChar? c = none := by
  unfold Mark.ofChar?
  split <;> first | rfl | exact absurd h (by decide)

/-- A character that starts a name starts nothing else. -/
theorem read_eq_name {first : Char} (h : startsName first = true) (afterOperand : Bool)
    (rest : List Char) : read afterOperand first rest = name first rest := by
  have hne {c : Char} (hc : startsName c = false) : first ≠ c := ne_of_startsName h hc
  have hand {c : Char} {p : Prop} (hc : startsName c = false) : ¬ (first = c ∧ p) :=
    fun hboth => hne hc hboth.1
  have hdigit : ¬ first.isDigit = true := fun hdigit => by
    rw [startsName_eq_false_of_isDigit hdigit] at h
    cases h
  unfold read
  rw [ofChar?_eq_none h]
  dsimp only
  rw [if_neg (hne (by decide)), if_neg (hne (by decide)), if_neg (hne (by decide)),
    if_neg (hne (by decide)), if_neg (hand (by decide)), if_neg (hand (by decide)),
    if_neg (hand (by decide)), if_neg (hand (by decide)), if_neg (hne (by decide)),
    if_neg (hne (by decide)), if_neg hdigit, if_pos h]

/-- What stands behind an operand matters to a `<` alone. -/
theorem read_congr {first : Char} (h : first ≠ '<') (afterOperand afterOperand' : Bool)
    (rest : List Char) : read afterOperand first rest = read afterOperand' first rest := by
  unfold read
  rw [if_neg h, if_neg h]

end Lexeme

/-! ## Token streams -/

namespace TokenStream

variable {afterOperand : Bool} {position : Position} {rest : List Char}

theorem triviaLength_eq_zero {first : Char} (h : beginsTrivia first = false) (rest : List Char) :
    triviaLength false (first :: rest) = 0 := by
  rw [beginsTrivia, Bool.or_eq_false_iff] at h
  rw [triviaLength, if_neg Bool.false_ne_true, if_neg (Bool.eq_false_iff.mp h.1),
    if_neg (Bool.eq_false_iff.mp h.2)]

/-- The tokens of a text with a token in front. -/
theorem scan_token {first : Char} (h : beginsTrivia first = false) (afterOperand : Bool)
    (position : Position) (rest : List Char) :
    scan afterOperand position (first :: rest) =
      let lexeme := Lexeme.read afterOperand first rest
      let lexemeText := first :: rest.take lexeme.extra
      let following := scan lexeme.kind.endsOperand (position.advance lexemeText)
        (rest.drop lexeme.extra)
      { tokens := ⟨lexeme.kind, String.ofList lexemeText, position⟩ :: following.tokens
        diagnostics :=
          (lexeme.problem.map (Diagnostic.mk · position)).toList ++ following.diagnostics } := by
  have hzero := triviaLength_eq_zero h rest
  have hdrop : (first :: rest).drop (triviaLength false (first :: rest)) = first :: rest := by
    rw [hzero, List.drop_zero]
  rw [scan_of_cons hdrop, hzero]
  rfl

/-- The tokens of a text with a name in front of something that does not continue it. -/
theorem scan_name {name : List Char} (hname : Literal.isName name = true)
    (hrest : ∀ c ∈ rest.head?, continuesName c = false) (afterOperand : Bool)
    (position : Position) :
    scan afterOperand position (name ++ rest) =
      let kind : Token.Kind := .name (String.ofList name)
      let following := scan kind.endsOperand (position.advance name) rest
      { tokens := ⟨kind, String.ofList name, position⟩ :: following.tokens
        diagnostics := following.diagnostics } := by
  cases name with
  | nil => cases hname
  | cons first more =>
    obtain ⟨hfirst, hmore⟩ := (Bool.and_eq_true _ _).mp hname
    have htake : (more ++ rest).takeWhile continuesName = more := by
      rw [List.takeWhile_append_of_pos (List.all_eq_true.mp hmore)]
      cases rest with
      | nil => exact List.append_nil more
      | cons c rest =>
        rw [List.takeWhile_cons_of_neg (Bool.eq_false_iff.mp (hrest c rfl)), List.append_nil]
    have hread : Lexeme.read afterOperand first (more ++ rest) =
        ⟨.name (String.ofList (first :: more)), more.length, none⟩ := by
      rw [Lexeme.read_eq_name hfirst, Lexeme.name, htake]
    rw [List.cons_append, scan_token (beginsTrivia_eq_false_of_startsName hfirst), hread]
    dsimp only
    rw [List.take_left, List.drop_left]
    rfl

/-- White space in front of a text is skipped. -/
theorem scan_blanks {blanks : List Char} (h : ∀ c ∈ blanks, isBlank c = true)
    (afterOperand : Bool) (position : Position) (rest : List Char) :
    scan afterOperand position (blanks ++ rest) =
      scan afterOperand (position.advance blanks) rest := by
  refine scan_append_of_trivia ?_ afterOperand position
  induction blanks with
  | nil => exact (Nat.zero_add _).symm
  | cons c blanks ih =>
    rw [List.forall_mem_cons] at h
    rw [List.cons_append, triviaLength, if_neg Bool.false_ne_true, if_pos h.1, ih h.2,
      List.length_cons]
    omega

/-- A text of white space has no token but its end. -/
theorem scan_of_blank {blanks : List Char} (h : ∀ c ∈ blanks, isBlank c = true)
    (afterOperand : Bool) (position : Position) :
    scan afterOperand position blanks = ⟨[.atEnd (position.advance blanks)], []⟩ := by
  have hscan := scan_blanks h afterOperand position []
  rw [List.append_nil] at hscan
  rw [hscan, scan_of_nil (List.drop_nil)]
  rfl

end TokenStream

end Animatic.Script
