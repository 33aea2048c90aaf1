import Animatic.Proofs.Number.Arithmetic
import Animatic.Proofs.Number.Order

/-!
# Sums of times

Adding a number that is not negative to one that is not negative makes it no smaller, although the
sum is rounded and may become infinite; and a sum is negative zero only if its first term is.

* `signedWeight_le_of_value_le`: values order numbers.
* `le_add_of_nonneg`: what is added counts.
* `notNegativeZero_add`: no sum becomes negative zero.
-/

namespace Animatic.Number

open Float.Model (Format UnpackedFloat)
open Float.Model.UnpackedFloat

variable {format : Format}

/-! ## Values and weights -/

/-- Mantissas with all digits or the least exponent are ordered as their values are, exponents
first. -/
private theorem weight_mono {m₁ k₁ m₂ k₂ P : ℕ} (hm₁ : m₁ < 2 * P) (hm₂ : m₂ < 2 * P)
    (hfull₁ : P ≤ m₁ ∨ k₁ = 0) (hfull₂ : P ≤ m₂ ∨ k₂ = 0) (h : m₁ * 2 ^ k₁ ≤ m₂ * 2 ^ k₂) :
    m₁ + k₁ * P ≤ m₂ + k₂ * P := by
  rcases Nat.lt_trichotomy k₁ k₂ with hk | rfl | hk
  · have hstep : (k₁ + 1) * P ≤ k₂ * P := Nat.mul_le_mul_right P hk
    rw [Nat.add_mul, Nat.one_mul] at hstep
    have hfull : P ≤ m₂ := hfull₂.resolve_right (by omega)
    omega
  · have hm : m₁ ≤ m₂ := Nat.le_of_mul_le_mul_right h (Nat.two_pow_pos k₁)
    omega
  · exfalso
    have hfull : P ≤ m₁ := hfull₁.resolve_right (by omega)
    have hlt : m₂ * 2 ^ k₂ < m₁ * 2 ^ k₁ := calc
      m₂ * 2 ^ k₂ < 2 * P * 2 ^ k₂ := Nat.mul_lt_mul_of_pos_right hm₂ (Nat.two_pow_pos k₂)
      _ = P * 2 ^ (k₂ + 1) := by ring
      _ ≤ m₁ * 2 ^ k₁ := Nat.mul_le_mul hfull (Nat.pow_le_pow_right (by decide) hk)
    omega

/-- A finite number with digits has the sign of its value. -/
theorem positive_of_value_nonneg {s : Sign} {m : ℕ} {e : ℤ} {hm : 0 < m}
    (h : 0 ≤ value (.finite s m e hm)) : s = .positive := by
  cases s with
  | positive => rfl
  | negative =>
    have hpos : (0 : ℚ) < m * 2 ^ e := mul_pos (by exact_mod_cast hm) (by positivity)
    rw [value, signed] at h
    linarith

/-- What has a value above zero is finite and positive. -/
theorem finite_of_value_pos {f : UnpackedFloat} (h : 0 < value f) :
    ∃ m e hm, f = .finite .positive m e hm := by
  cases f with
  | finite s m e hm =>
    obtain rfl := positive_of_value_nonneg h.le
    exact ⟨m, e, hm, rfl⟩
  | zero | infinity | notANumber => exact absurd h (lt_irrefl 0)

theorem signedWeight_nonneg_of_value {f : UnpackedFloat} (hf : f.isFinite = true)
    (h : 0 ≤ value f) : 0 ≤ signedWeight format f := by
  cases f with
  | infinity s => cases hf
  | notANumber => cases hf
  | zero s => cases s <;> exact le_refl 0
  | finite s m e hm =>
    obtain rfl := positive_of_value_nonneg h
    exact Int.natCast_nonneg _

/-- Values order numbers that are not negative. -/
theorem signedWeight_le_of_value_le {f g : UnpackedFloat} (cf : Canonical format f)
    (cg : Canonical format g) (hf : f.isFinite = true) (hg : g.isFinite = true)
    (hpos : 0 ≤ value f) (h : value f ≤ value g) :
    signedWeight format f ≤ signedWeight format g := by
  cases f with
  | infinity s => cases hf
  | notANumber => cases hf
  | zero s =>
    have hzero : signedWeight format (.zero s) = 0 := by cases s <;> rfl
    rw [hzero]
    exact signedWeight_nonneg_of_value hg (hpos.trans h)
  | finite s m e hm =>
    obtain rfl := positive_of_value_nonneg hpos
    have hvalue : (0 : ℚ) < m * 2 ^ e := mul_pos (by exact_mod_cast hm) (by positivity)
    cases g with
    | infinity t => cases hg
    | notANumber => cases hg
    | zero t =>
      rw [value, signed, value_zero] at h
      linarith
    | finite t m' e' hm' =>
      obtain rfl := positive_of_value_nonneg (hpos.trans h)
      obtain ⟨hlt, hle, hfull⟩ := cf
      obtain ⟨hlt', hle', hfull'⟩ := cg
      have hp := two_pow_mantissaBits format
      obtain ⟨k, rfl⟩ : ∃ k : ℕ, e = format.minExponent + k :=
        ⟨(e - format.minExponent).toNat, by omega⟩
      obtain ⟨k', rfl⟩ : ∃ k : ℕ, e' = format.minExponent + k :=
        ⟨(e' - format.minExponent).toNat, by omega⟩
      have hwhole : m * 2 ^ k ≤ m' * 2 ^ k' := by
        rw [value, value, signed, signed, zpow_add₀ (by norm_num), zpow_add₀ (by norm_num),
          mul_left_comm, mul_left_comm (m' : ℚ)] at h
        have hcancel := le_of_mul_le_mul_left h (by positivity)
        rw [zpow_natCast, zpow_natCast] at hcancel
        exact_mod_cast hcancel
      have hmono := weight_mono (by omega) (by omega) (hfull.imp_right (by omega))
        (hfull'.imp_right (by omega)) hwhole
      simp only [signedWeight, weight, Sign.apply, add_sub_cancel_left, Int.toNat_natCast]
      exact_mod_cast hmono

/-! ## Numbers that are not negative -/

theorem isNaN_eq_false {x : Float} (h : exact x ≠ .notANumber) : x.isNaN = false :=
  Bool.eq_false_iff.mpr fun hnan => h (isNaN_iff.mp hnan)

private theorem rank_zero : rank 0 = 0 := by decide

theorem nonneg_iff_rank {x : Float} (hx : x.isNaN = false) : 0 ≤ x ↔ 0 ≤ rank x := by
  have hzero : (0 : Float).isNaN = false := by decide
  rw [le_iff_rank hzero hx, rank_zero]

/-- A number that is not negative has a value, which is not negative, or is infinite. -/
theorem exact_of_nonneg {x : Float} (h : 0 ≤ x) :
    exact x = .infinity .positive ∨ (exact x).isFinite = true ∧ 0 ≤ value (exact x) := by
  have hx := (numbers_of_le h).2
  have hrank := (nonneg_iff_rank hx).mp h
  rw [← signedWeight_exact hx] at hrank
  obtain ⟨hcanonical, hrange⟩ := canonical_unpack wide64 x.toModel.toBits.toBitVec
  change Canonical .binary64 (exact x) at hcanonical
  change InRange .binary64 (exact x) at hrange
  cases hexact : exact x with
  | notANumber => exact absurd (isNaN_iff.mpr hexact) (Bool.eq_false_iff.mp hx)
  | zero s => exact .inr ⟨rfl, le_refl 0⟩
  | infinity s =>
    cases s with
    | positive => exact .inl rfl
    | negative =>
      rw [hexact] at hrank
      exact absurd hrank (by decide)
  | finite s m e hm =>
    cases s with
    | positive => exact .inr ⟨rfl, mul_nonneg (Nat.cast_nonneg m) (by positivity)⟩
    | negative =>
      rw [hexact] at hrank hcanonical hrange
      have hpos := (weight_finite_lt (t := .positive) hcanonical hrange).1
      change 0 ≤ -((weight .binary64 (.finite .negative m e hm) : ℕ) : ℤ) at hrank
      omega

/-! ## Sums -/

theorem exact_add (x y : Float) :
    exact (x + y) = unpack .binary64 (pack .binary64 (add .binary64 (exact x) (exact y))) := rfl

theorem add_infinity_left {g : UnpackedFloat}
    (h : g = .infinity .positive ∨ g.isFinite = true) :
    add format (.infinity .positive) g = .infinity .positive := by
  rcases h with rfl | h
  · rfl
  · cases g with
    | zero | finite => rfl
    | infinity | notANumber => cases h

theorem add_infinity_right {f : UnpackedFloat} {s : Sign} (h : f.isFinite = true) :
    add format f (.infinity s) = .infinity s := by
  cases f with
  | zero | finite => rfl
  | infinity | notANumber => cases h

/-- What a number that is not negative is kept as. -/
private theorem kept_of_value_nonneg {f : UnpackedFloat} (hc : Canonical format f)
    (h : 0 ≤ value f) :
    unpack format (pack format f) = f ∨ unpack format (pack format f) = .infinity .positive := by
  by_cases hrange : InRange format f
  · exact .inl (unpack_pack hc hrange)
  · cases f with
    | finite s m e hm =>
      obtain rfl := positive_of_value_nonneg h
      exact .inr (unpack_pack_overflow (not_le.mp hrange))
    | zero | infinity | notANumber => exact absurd trivial hrange

/-- Nothing is above what is infinite upwards. -/
theorem signedWeight_le_infinity {f : UnpackedFloat} (hc : Canonical format f)
    (hr : InRange format f) (hf : f.isFinite = true) :
    signedWeight format f ≤ signedWeight format (.infinity .positive) := by
  have htop : 0 ≤ signedWeight format (.infinity .positive) := Int.natCast_nonneg _
  cases f with
  | infinity s => cases hf
  | notANumber => cases hf
  | zero s => cases s <;> exact htop
  | finite s m e hm =>
    have hlt := (weight_finite_lt (t := .positive) hc hr).2
    simp only [signedWeight] at htop ⊢
    cases s <;> (simp only [Sign.apply] at htop ⊢; omega)

/-- The sum of two numbers that are not negative is no smaller than the first, or infinite. -/
private theorem exact_add_of_nonneg {x y : Float} (hx : 0 ≤ x) (hy : 0 ≤ y) :
    exact (x + y) = .infinity .positive ∨
      (exact x).isFinite = true ∧ (exact (x + y)).isFinite = true ∧ 0 ≤ value (exact x) ∧
        value (exact x) ≤ value (exact (x + y)) := by
  have hinfinite : unpack .binary64 (pack .binary64 (.infinity .positive)) =
      .infinity .positive := unpack_pack trivial trivial
  rw [exact_add]
  rcases exact_of_nonneg hx with hx | ⟨hfx, hvx⟩
  · have hinfinity := (exact_of_nonneg hy).imp_right And.left
    exact .inl (by rw [hx, add_infinity_left hinfinity, hinfinite])
  · rcases exact_of_nonneg hy with hy | ⟨hfy, hvy⟩
    · exact .inl (by rw [hy, add_infinity_right hfx, hinfinite])
    · have hrounds := rounds_add hfx hfy (canonical_exact x) (canonical_exact y)
      have hgrown := hrounds.le_of_ge _ (representable_value (canonical_exact x))
        (le_add_of_nonneg_right hvy)
      rcases kept_of_value_nonneg hrounds.canonical (hvx.trans hgrown) with hkept | hkept
      · rw [hkept]
        exact .inr ⟨hfx, hrounds.isFinite, hvx, hgrown⟩
      · exact .inl hkept

/-- Adding a number that is not negative does not make one that is not negative smaller. -/
theorem le_add_of_nonneg {x y : Float} (hx : 0 ≤ x) (hy : 0 ≤ y) : x ≤ x + y := by
  have hnx := (numbers_of_le hx).2
  have hsum : (x + y).isNaN = false := by
    refine isNaN_eq_false fun hnan => ?_
    rcases exact_add_of_nonneg hx hy with h | ⟨-, h, -, -⟩
    · rw [h] at hnan
      cases hnan
    · rw [hnan] at h
      cases h
  rw [le_iff_rank hnx hsum, ← signedWeight_exact hnx, ← signedWeight_exact hsum]
  rcases exact_add_of_nonneg hx hy with h | ⟨hfx, hf, hvx, hle⟩
  · rw [h]
    rcases exact_of_nonneg hx with hx | ⟨hfx, -⟩
    · rw [hx]
    · exact signedWeight_le_infinity (canonical_exact x) (canonical_unpack wide64 _).2 hfx
  · exact signedWeight_le_of_value_le (canonical_exact x) (canonical_exact _) hfx hf hvx hle

/-- The greater of a number and zero is not negative. -/
theorem nonneg_greatest (x : Float) : 0 ≤ greatest x 0 := by
  have hzero : (0 : Float) ≤ 0 := by decide
  rw [greatest]
  split
  · exact hzero
  · rename_i hnumber
    have hx : x.isNaN = false := Bool.eq_false_iff.mpr hnumber
    split
    · exact hzero
    · rename_i hnot
      rw [lt_iff_rank hx (numbers_of_le hzero).1, rank_zero] at hnot
      rw [nonneg_iff_rank hx]
      omega

/-! ## Sums that are not numbers -/

theorem isNaN_exact (x : Float) : (exact x).isNaN = x.isNaN := by
  cases hx : x.isNaN with
  | true => rw [isNaN_iff.mp hx]; rfl
  | false =>
    have hne : exact x ≠ .notANumber := fun h => by rw [isNaN_iff.mpr h] at hx; cases hx
    cases hexact : exact x with
    | notANumber => exact absurd hexact hne
    | zero | infinity | finite => rfl

private theorem isNaN_add (x y : Float) :
    (x + y).isNaN = (add .binary64 (exact x) (exact y)).isNaN := by
  rw [← isNaN_exact, exact_add, isNaN_unpack_pack]

theorem isNaN_add_of_isNaN {x : Float} (h : x.isNaN = true) (y : Float) :
    (x + y).isNaN = true := by
  rw [isNaN_add, isNaN_iff.mp h]
  cases exact y <;> rfl

/-- A sum is a number if the second term is not negative and the first one is not infinite
downwards. -/
theorem isNaN_add_of_nonneg {x y : Float} (hx : x.isNaN = false)
    (hdown : exact x ≠ .infinity .negative) (hy : 0 ≤ y) : (x + y).isNaN = false := by
  rw [isNaN_add]
  rw [← isNaN_exact] at hx
  have hfinite : exact x = .infinity .positive ∨ (exact x).isFinite = true := by
    cases h : exact x with
    | infinity s =>
      cases s with
      | positive => exact .inl rfl
      | negative => exact absurd h hdown
    | notANumber => rw [h] at hx; cases hx
    | zero | finite => exact .inr rfl
  rcases hfinite with hx | hfx
  · rw [hx, add_infinity_left ((exact_of_nonneg hy).imp_right And.left)]
    rfl
  · rcases exact_of_nonneg hy with hy | ⟨hfy, -⟩
    · rw [hy, add_infinity_right hfx]
      rfl
    · have hsum := (rounds_add hfx hfy (canonical_exact x) (canonical_exact y)).isFinite
      cases hadd : add .binary64 (exact x) (exact y) with
      | notANumber => rw [hadd] at hsum; cases hsum
      | zero | infinity | finite => rfl

/-- What is infinite downwards stays so, or is no number any more. -/
theorem add_of_infinite_down {x : Float} (h : exact x = .infinity .negative) (y : Float) :
    (x + y).isNaN = true ∨ exact (x + y) = .infinity .negative := by
  have hkept : unpack .binary64 (pack .binary64 (.infinity .negative)) = .infinity .negative :=
    unpack_pack trivial trivial
  rw [isNaN_add, exact_add, h]
  cases exact y with
  | infinity s =>
    cases s with
    | positive => exact .inl rfl
    | negative => exact .inr hkept
  | notANumber => exact .inl rfl
  | zero | finite => exact .inr hkept

/-! ## Negative zero -/

theorem toBits_of_exact {x : Float} (h : exact x = .zero .negative) :
    x.toBits = (-0.0 : Float).toBits := by
  have hx : x.isNaN = false := isNaN_eq_false (by rw [h]; nofun)
  have hrank : rank x = 0 := by
    rw [← signedWeight_exact hx, h]
    rfl
  have hbits : (-0.0 : Float).toBits.toNat = 2 ^ 63 := by decide
  refine UInt64.toNat_inj.mp ?_
  rw [rank] at hrank
  split at hrank
  · -- the pattern of positive zero is read as positive zero
    have hpositive : x.toBits = 0 := UInt64.toNat_inj.mp (by rw [UInt64.toNat_zero]; omega)
    have hexact : exact x = unpack .binary64 (0 : UInt64).toBitVec := by rw [← hpositive]; rfl
    rw [h] at hexact
    cases hexact
  · omega

/-- A sum of digits is not negative zero. -/
private theorem normalize_ne_negative_zero {n e : ℤ} (he : format.minExponent ≤ e) :
    UnpackedFloat.normalize format n e .positive ≠ .zero .negative := by
  intro hzero
  have hrounds := rounds_normalize format n e .positive
  rw [hzero] at hrounds
  have hpow : (0 : ℚ) < 2 ^ e := by positivity
  have hone (k : ℤ) (hk : k.natAbs = 1) : k.natAbs ≤ 2 ^ format.mantissaBits :=
    hk ▸ Nat.one_le_two_pow
  rcases lt_trichotomy n 0 with hn | rfl | hn
  · have hle : (n : ℚ) * 2 ^ e ≤ (-1 : ℤ) * 2 ^ e :=
      mul_le_mul_of_nonneg_right (by exact_mod_cast (by omega : n ≤ -1)) hpow.le
    have hbelow := hrounds.le_of_le _ ⟨-1, e, hone _ rfl, he, rfl⟩ hle
    rw [value_zero] at hbelow
    push_cast at hbelow
    linarith
  · rw [UnpackedFloat.normalize, compare_eq_iff_eq.mpr rfl] at hzero
    cases hzero
  · have hle : ((1 : ℤ) : ℚ) * 2 ^ e ≤ n * 2 ^ e :=
      mul_le_mul_of_nonneg_right (by exact_mod_cast (by omega : 1 ≤ n)) hpow.le
    have habove := hrounds.le_of_ge _ ⟨1, e, hone _ rfl, he, rfl⟩ hle
    rw [value_zero] at habove
    push_cast at habove
    linarith

private theorem zero_of_unpack_pack {f : UnpackedFloat} {s : Sign} (hc : Canonical format f)
    (h : unpack format (pack format f) = .zero s) : f = .zero s := by
  by_cases hrange : InRange format f
  · rwa [unpack_pack hc hrange] at h
  · cases f with
    | finite t m e hm =>
      rw [unpack_pack_overflow (not_le.mp hrange)] at h
      cases h
    | zero | infinity | notANumber => exact absurd trivial hrange

private theorem zero_of_add {f g : UnpackedFloat} (cf : Canonical format f)
    (cg : Canonical format g)
    (h : unpack format (pack format (add format f g)) = .zero .negative) : f = .zero .negative := by
  cases f with
  | notANumber => cases zero_of_unpack_pack (f := .notANumber) trivial h
  | infinity s =>
    exfalso
    cases g with
    | notANumber => cases zero_of_unpack_pack (f := .notANumber) trivial h
    | infinity t =>
      rw [add] at h
      split at h
      · cases zero_of_unpack_pack (f := .infinity s) trivial h
      · cases zero_of_unpack_pack (f := .notANumber) trivial h
    | zero t => cases zero_of_unpack_pack (f := .infinity s) trivial h
    | finite t m e hm => cases zero_of_unpack_pack (f := .infinity s) trivial h
  | zero s =>
    cases g with
    | notANumber => cases zero_of_unpack_pack (f := .notANumber) trivial h
    | infinity t => cases zero_of_unpack_pack (f := .infinity t) trivial h
    | zero t =>
      rw [add] at h
      split at h
      · exact zero_of_unpack_pack (f := .zero s) trivial h
      · cases zero_of_unpack_pack (f := .zero .positive) trivial h
    | finite t m e hm => cases zero_of_unpack_pack cg h
  | finite s m₁ e₁ h₁ =>
    exfalso
    cases g with
    | notANumber => cases zero_of_unpack_pack (f := .notANumber) trivial h
    | infinity t => cases zero_of_unpack_pack (f := .infinity t) trivial h
    | zero t => cases zero_of_unpack_pack cf h
    | finite t m₂ e₂ h₂ =>
      have hrounds := rounds_add (f := .finite s m₁ e₁ h₁) (g := .finite t m₂ e₂ h₂) rfl rfl cf cg
      exact normalize_ne_negative_zero (le_min cf.2.1 cg.2.1)
        (zero_of_unpack_pack hrounds.canonical h)

/-- A sum is negative zero only if its first term is. -/
theorem notNegativeZero_add {x : Float} (h : x.toBits ≠ (-0.0 : Float).toBits) (y : Float) :
    (x + y).toBits ≠ (-0.0 : Float).toBits := by
  intro hsum
  have hbits : (-0.0 : Float).toBits = 0x8000000000000000 := by decide
  have hexact : exact (x + y) = .zero .negative := by
    have hread : exact (x + y) = unpack .binary64 (x + y).toBits.toBitVec := rfl
    rw [hread, hsum, hbits]
    rfl
  exact h (toBits_of_exact (zero_of_add (canonical_exact x) (canonical_exact y) hexact))

end Animatic.Number
