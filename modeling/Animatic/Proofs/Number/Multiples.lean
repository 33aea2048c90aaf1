import Animatic.Proofs.Number.Comparison
import Animatic.Proofs.Number.Whole

/-!
# Multiples

The multiples of a number are ordered as the whole numbers that it is taken by, also where they are
rounded or infinite, and so are the whole numbers that they are read as.

* `rounds_ofNat`, `ofNat_le_ofNat`: whole numbers of any size are converted in their order.
* `truncWithin_word_mono`: readings keep the order of what is rounded.
* `truncWithin_mul_mono`: readings of products.
-/

namespace Animatic.Number

open Float.Model (Format UnpackedFloat)
open Float.Model.UnpackedFloat

variable {f g : UnpackedFloat} {limit : ℕ}

/-! ## Whole numbers of any size -/

/-- A whole number is converted by rounding it; if it is too large it becomes infinite. -/
theorem rounds_ofNat (n : ℕ) : ∃ f, Rounds .binary64 n f ∧
    exact (Float.ofNat n) = unpack .binary64 (pack .binary64 f) := by
  by_cases hn : n < 2 ^ 53
  · obtain ⟨hfinite, hvalue⟩ := value_ofNat hn
    refine ⟨exact (Float.ofNat n), ?_, (unpack_pack_exact _).symm⟩
    rw [← hvalue]
    exact rounds_self hfinite (canonical_exact _)
  · refine ⟨_, rounds_ofScientific .binary64 n, ?_⟩
    have hlong : ¬ (n < 2 ^ 53 ∧ 0 ≤ 22) := by omega
    change exact (Float.ofScientific n false 0) = _
    rw [Float.ofScientific, dif_neg hlong]
    rfl

/-- A word is a number if what it was made from is. -/
private theorem isNaN_word (hf : f.isFinite = true) :
    (unpack .binary64 (pack .binary64 f)).isNaN = false := by
  rw [isNaN_unpack_pack]
  exact isNaN_of_isFinite hf

theorem ofNat_le_ofNat {m n : ℕ} (h : m ≤ n) : Float.ofNat m ≤ Float.ofNat n := by
  obtain ⟨f, hf, hm⟩ := rounds_ofNat m
  obtain ⟨g, hg, hn⟩ := rounds_ofNat n
  have hnumber : (Float.ofNat m).isNaN = false := by
    rw [← isNaN_exact, hm]
    exact isNaN_word hf.isFinite
  have hnumber' : (Float.ofNat n).isNaN = false := by
    rw [← isNaN_exact, hn]
    exact isNaN_word hg.isFinite
  rw [le_iff_rank hnumber hnumber', ← signedWeight_exact hnumber, ← signedWeight_exact hnumber']
  rcases Nat.eq_or_lt_of_le h with rfl | hlt
  · exact le_rfl
  · rw [hm, hn]
    exact signedWeight_unpack_pack_mono wide64 hf.canonical hg.canonical hf.isFinite hg.isFinite
      (hf.mono hg (by exact_mod_cast hlt))

theorem nonneg_ofNat (n : ℕ) : 0 ≤ Float.ofNat n := ofNat_le_ofNat (Nat.zero_le n)

/-! ## Readings of words -/

/-- What is infinite is read as it stands. -/
private theorem truncWithin_infinity (limit : ℕ) (s : Sign) :
    truncWithin limit (unpack .binary64 (pack .binary64 (.infinity s))) =
      truncWithin limit (.infinity s) :=
  congrArg _ (unpack_pack trivial trivial)

/-- Words are read in the order of the values that they are made from. -/
theorem truncWithin_word_mono (cf : Canonical .binary64 f) (cg : Canonical .binary64 g)
    (hf : f.isFinite = true) (hg : g.isFinite = true) (h : value f ≤ value g) :
    truncWithin limit (unpack .binary64 (pack .binary64 f)) ≤
      truncWithin limit (unpack .binary64 (pack .binary64 g)) := by
  obtain ⟨-, hword⟩ | ⟨hbig, hword⟩ | ⟨-, hword⟩ := unpack_pack_cases wide64 cf hf <;>
    obtain ⟨hkept', hword'⟩ | ⟨-, hword'⟩ | ⟨hlow', hword'⟩ := unpack_pack_cases wide64 cg hg <;>
    rw [hword, hword']
  · exact truncWithin_mono hf hg h
  · exact wholeWithin_le _ _ _
  · have hneg : value f ≤ 0 := by linarith [maxFinite_nonneg .binary64]
    exact (truncWithin_eq_zero hf hneg).le
  · linarith [le_of_abs_le hkept']
  · linarith [maxFinite_nonneg .binary64]
  all_goals exact Nat.zero_le _

/-- Whether a result is no number, or not above zero. -/
private def NotAbove (f : UnpackedFloat) : Prop :=
  f = .notANumber ∨ f = .infinity .negative ∨
    Canonical .binary64 f ∧ f.isFinite = true ∧ value f ≤ 0

/-- What is no number, or not above zero, is read as zero. -/
private theorem NotAbove.truncWithin_word (h : NotAbove f) :
    truncWithin limit (unpack .binary64 (pack .binary64 f)) = 0 := by
  obtain rfl | rfl | ⟨hc, hf, hvalue⟩ := h
  · exact congrArg _ (unpack_pack (f := .notANumber) trivial trivial)
  · exact truncWithin_infinity limit .negative
  · have hzero : unpack .binary64 (pack .binary64 (.zero .positive)) = .zero .positive :=
      unpack_pack trivial trivial
    have hle := @truncWithin_word_mono f (.zero .positive) limit hc trivial hf rfl hvalue
    rw [hzero] at hle
    exact Nat.le_zero.mp hle

/-! ## Products -/

/-- A finite number times one that is not above zero. -/
private theorem notAbove_mul_finite (cf : Canonical .binary64 f) (cg : Canonical .binary64 g)
    (hf : f.isFinite = true) (hg : g.isFinite = true) (h : value f * value g ≤ 0) :
    NotAbove (mul .binary64 f g) := by
  have hrounds := rounds_mul hf hg cf cg
  exact .inr (.inr ⟨hrounds.canonical, hrounds.isFinite,
    hrounds.le_of_le 0 (representable_zero _) h⟩)

/-- What is not below zero times what is not above it. -/
private theorem notAbove_mul (cf : Canonical .binary64 f) (cg : Canonical .binary64 g)
    (hf : f = .infinity .positive ∨ f.isFinite = true ∧ 0 ≤ value f) (hg : value g ≤ 0)
    (hg' : g ≠ .infinity .positive) : NotAbove (mul .binary64 f g) := by
  cases g with
  | notANumber => cases f <;> exact .inl rfl
  | infinity t =>
    cases t with
    | positive => exact absurd rfl hg'
    | negative =>
      obtain rfl | ⟨hf, hvalue⟩ := hf
      · exact .inr (.inl rfl)
      · cases f with
        | infinity | notANumber => cases hf
        | zero => exact .inl rfl
        | finite s =>
          obtain rfl := positive_of_value_nonneg hvalue
          exact .inr (.inl rfl)
  | zero t =>
    obtain rfl | ⟨hf, -⟩ := hf
    · exact .inl rfl
    · exact notAbove_mul_finite cf cg hf rfl (mul_zero _).le
  | finite t m e hm =>
    obtain rfl | ⟨hf, hvalue⟩ := hf
    · cases t with
      | negative => exact .inr (.inl rfl)
      | positive => exact absurd hg (not_le.mpr (value_pos hm e))
    · exact notAbove_mul_finite cf cg hf rfl (mul_nonpos_of_nonneg_of_nonpos hvalue hg)

private theorem mul_infinity_left (h : 0 < value g) :
    mul .binary64 (.infinity .positive) g = .infinity .positive := by
  obtain ⟨m, e, hm, rfl⟩ := finite_of_value_pos h
  rfl

private theorem mul_infinity_right (h : f = .infinity .positive ∨ 0 < value f) :
    mul .binary64 f (.infinity .positive) = .infinity .positive := by
  obtain rfl | h := h
  · rfl
  · obtain ⟨m, e, hm, rfl⟩ := finite_of_value_pos h
    rfl

/-- Zero times what is infinite is no number. -/
private theorem notAbove_zero_mul_infinity (hf : f.isFinite = true) (h : value f ≤ 0)
    (hnonneg : 0 ≤ value f) : NotAbove (mul .binary64 f (.infinity .positive)) := by
  cases f with
  | infinity | notANumber => cases hf
  | zero => exact .inl rfl
  | finite s m e hm =>
    obtain rfl := positive_of_value_nonneg hnonneg
    exact absurd h (not_le.mpr (value_pos hm e))

/-! ## Readings of products -/

section

variable {x y z : Float}

/-- What is read of a product that is not above zero, whatever it is compared with. -/
private theorem truncWithin_mul_le_of_notAbove {n : ℕ}
    (h : NotAbove (mul .binary64 (exact x) (exact z))) :
    truncWithin limit (exact (x * z)) ≤ n := by
  rw [exact_mul, h.truncWithin_word]
  exact Nat.zero_le n

/-- Whatever is compared with an infinite product. -/
private theorem le_truncWithin_mul_of_infinite
    (h : mul .binary64 (exact y) (exact z) = .infinity .positive) :
    truncWithin limit (exact (x * z)) ≤ truncWithin limit (exact (y * z)) := by
  have hlimit : truncWithin limit (exact (y * z)) = limit := by
    rw [exact_mul, h]
    exact truncWithin_infinity limit .positive
  rw [hlimit]
  exact wholeWithin_le _ _ _

/-- Finite numbers times one above zero. -/
private theorem truncWithin_mul_mono_of_finite (hx : (exact x).isFinite = true)
    (hy : (exact y).isFinite = true) (hxy : value (exact x) ≤ value (exact y))
    (hz : 0 < value (exact z)) :
    truncWithin limit (exact (x * z)) ≤ truncWithin limit (exact (y * z)) := by
  have hfinite : (exact z).isFinite = true := by
    obtain ⟨m, e, hm, hexact⟩ := finite_of_value_pos hz
    rw [hexact]
    rfl
  have hrounds := rounds_mul hx hfinite (canonical_exact x) (canonical_exact z)
  have hrounds' := rounds_mul hy hfinite (canonical_exact y) (canonical_exact z)
  rcases hxy.lt_or_eq with hlt | heq
  · rw [exact_mul, exact_mul]
    exact truncWithin_word_mono hrounds.canonical hrounds'.canonical hrounds.isFinite
      hrounds'.isFinite (hrounds.mono hrounds' (mul_lt_mul_of_pos_right hlt hz))
  · rcases eq_of_value_eq (canonical_exact x) (canonical_exact y) hx hy heq with
      hsame | ⟨s, t, hzero, -⟩
    · rw [exact_mul, exact_mul, hsame]
    · -- zeros of both signs have one value
      refine truncWithin_mul_le_of_notAbove
        (notAbove_mul_finite (canonical_exact x) (canonical_exact z) hx hfinite ?_)
      rw [hzero, value_zero, zero_mul]

/-- The larger of two numbers is not read as the smaller whole number when both are multiplied. -/
theorem truncWithin_mul_mono (hx : 0 ≤ x) (hxy : x ≤ y) (z : Float) :
    truncWithin limit (exact (x * z)) ≤ truncWithin limit (exact (y * z)) := by
  obtain ⟨hnumber, hnumber'⟩ := numbers_of_le hxy
  have hy : 0 ≤ y := by
    rw [nonneg_iff_rank hnumber']
    exact ((nonneg_iff_rank hnumber).mp hx).trans ((le_iff_rank hnumber hnumber').mp hxy)
  have hx' := exact_of_nonneg hx
  have hfinite (h : (exact y).isFinite = true) : (exact x).isFinite = true :=
    isFinite_of_le (by rcases hx' with h | ⟨h, -⟩ <;> intro hdown <;> rw [hdown] at h <;> cases h)
      hxy h
  by_cases hinfinite : exact z = .infinity .positive
  · by_cases hpos : exact x = .infinity .positive ∨ 0 < value (exact x)
    · have hpos' : exact y = .infinity .positive ∨ 0 < value (exact y) := by
        refine (exact_of_nonneg hy).imp_right fun ⟨hfy, _⟩ => ?_
        have hfx := hfinite hfy
        have hvalue := hpos.resolve_left fun h => by rw [h] at hfx; cases hfx
        exact hvalue.trans_le ((le_iff_value hfx hfy).mp hxy)
      refine le_truncWithin_mul_of_infinite ?_
      rw [hinfinite, mul_infinity_right hpos']
    · rw [not_or, not_lt] at hpos
      obtain ⟨hfx, hvalue⟩ := hx'.resolve_left hpos.1
      refine truncWithin_mul_le_of_notAbove ?_
      rw [hinfinite]
      exact notAbove_zero_mul_infinity hfx hpos.2 hvalue
  by_cases hz : 0 < value (exact z)
  · rcases exact_of_nonneg hy with hy' | ⟨hfy, -⟩
    · refine le_truncWithin_mul_of_infinite ?_
      rw [hy', mul_infinity_left hz]
    · exact truncWithin_mul_mono_of_finite (hfinite hfy) hfy
        ((le_iff_value (hfinite hfy) hfy).mp hxy) hz
  · exact truncWithin_mul_le_of_notAbove
      (notAbove_mul (canonical_exact x) (canonical_exact z) hx' (not_lt.mp hz) hinfinite)

end

end Animatic.Number
