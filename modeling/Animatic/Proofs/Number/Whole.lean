import Animatic.Proofs.Number.Arithmetic

/-!
# Whole numbers

* `value_ofNat`: a whole number below `2 ^ 53` is kept by a binary64 number.
* `rounds_ofScientific`: any other is rounded.
* `ofNat_div_bounds`, `ofNat_mul_bounds`: what a quotient or a product of two of them is rounded to.
* `truncWithin_bounds`, `truncWithin_mono`, `roundWithin_le`: how readings of whole numbers stand to
  the value.
-/

namespace Animatic.Number

open Float.Model (Format UnpackedFloat totalExponent)
open Float.Model.UnpackedFloat

/-! ## Whole numbers of a format -/

/-- Whole numbers with no more digits than a mantissa are representable. -/
theorem representable_natCast {format : Format} (hmin : format.minExponent ≤ 0) {n : ℕ}
    (hn : n ≤ 2 ^ format.mantissaBits) : Representable format n :=
  ⟨n, 0, by rwa [Int.natAbs_natCast], hmin, by rw [zpow_zero, mul_one, Int.cast_natCast]⟩

/-- The powers of two that a format has are no larger than its largest number. -/
theorem two_pow_le_maxFinite {format : Format} {n : ℕ} (hn : n ≤ format.exponentBias) :
    (2 : ℚ) ^ n ≤ maxFinite format := by
  have hdigits : (1 : ℚ) ≤ 2 ^ format.mantissaBitsWithoutImplicit := one_le_pow₀ one_le_two
  have hpow : (2 : ℚ) ^ format.mantissaBits = 2 * 2 ^ format.mantissaBitsWithoutImplicit := by
    exact_mod_cast two_pow_mantissaBits format
  calc (2 : ℚ) ^ n ≤ 2 ^ format.exponentBias := pow_le_pow_right₀ one_le_two hn
    _ = 2 ^ format.mantissaBitsWithoutImplicit * 2 ^ maxExponent format := by
      rw [maxExponent_eq, ← zpow_natCast, ← zpow_natCast, ← zpow_add₀ two_ne_zero,
        add_sub_cancel]
    _ ≤ maxFinite format :=
      mul_le_mul_of_nonneg_right (by rw [hpow]; linarith) (by positivity)

theorem one_le_maxFinite (format : Format) : 1 ≤ maxFinite format :=
  (pow_zero 2).ge.trans (two_pow_le_maxFinite (Nat.zero_le _))

theorem natCast_le_maxFinite64 {n : ℕ} (hn : n < 2 ^ 53) : (n : ℚ) ≤ maxFinite .binary64 := calc
  (n : ℚ) ≤ 2 ^ 53 := by exact_mod_cast hn.le
  _ ≤ maxFinite .binary64 := two_pow_le_maxFinite (by decide)

/-! ## Conversions -/

/-- The word that a whole number is converted to first. -/
private theorem rounds_toFloat {n : ℕ} (hn : n < 2 ^ 53) :
    Rounds .binary64 n (exact n.toUInt64.toFloat) := by
  have hnat : n.toUInt64.toNat = n := by
    rw [UInt64.toNat_ofNat', Nat.mod_eq_of_lt (Nat.lt_trans hn (by decide))]
  have hexact : exact n.toUInt64.toFloat =
      unpack .binary64 (pack .binary64 (UnpackedFloat.normalize .binary64 n 0 .positive)) := by
    have hmodel : exact n.toUInt64.toFloat = unpack .binary64
        (pack .binary64 (UnpackedFloat.normalize .binary64 n.toUInt64.toNat 0 .positive)) := rfl
    rw [hmodel, hnat]
  have hrounds := rounds_normalize .binary64 n 0 .positive
  rw [zpow_zero, mul_one, Int.cast_natCast] at hrounds
  have hsmall : |(n : ℚ)| ≤ maxFinite .binary64 := by
    rw [Nat.abs_cast]
    exact natCast_le_maxFinite64 hn
  rw [hexact]
  exact hrounds.word wide64 hsmall

theorem value_ofNat {n : ℕ} (hn : n < 2 ^ 53) :
    (exact (Float.ofNat n)).isFinite = true ∧ value (exact (Float.ofNat n)) = n := by
  have hrepresentable : Representable .binary64 n := representable_natCast (by decide) hn.le
  have hword := rounds_toFloat hn
  have hone : exact (Float.ofBits 0x3FF0000000000000) =
      .finite .positive (2 ^ 52) (-52) (by decide) := by rfl
  have hvalue : value (exact (Float.ofBits 0x3FF0000000000000)) = 1 := by
    rw [hone, value, signed]
    norm_num
  have hofNat : Float.ofNat n = n.toUInt64.toFloat * Float.ofBits 0x3FF0000000000000 := by
    have hbranch : n < 2 ^ 53 ∧ 0 ≤ 22 := ⟨hn, by decide⟩
    change Float.ofScientific n false 0 = _
    rw [Float.ofScientific, dif_pos hbranch]
    rfl
  have hproduct : Rounds .binary64 n (exact (Float.ofNat n)) := by
    have hexact : value (exact n.toUInt64.toFloat) *
        value (exact (Float.ofBits 0x3FF0000000000000)) = n := by
      rw [hvalue, mul_one, hword.eq hrepresentable]
    have hfinite : (exact (Float.ofBits 0x3FF0000000000000)).isFinite = true := by
      rw [hone]
      rfl
    have hsmall : |(n : ℚ)| ≤ maxFinite .binary64 := by
      rw [Nat.abs_cast]
      exact natCast_le_maxFinite64 hn
    have hrounds := rounds_mul64 hword.isFinite hfinite (by rwa [hexact])
    rw [hofNat]
    rwa [hexact] at hrounds
  exact ⟨hproduct.isFinite, hproduct.eq hrepresentable⟩

/-- A whole number is read as a mantissa, which is rounded. -/
theorem rounds_ofScientific (format : Format) (n : ℕ) :
    Rounds format n (UnpackedFloat.ofScientific format n 0) := by
  rcases Nat.eq_zero_or_pos n with rfl | hn
  · rw [Nat.cast_zero]
    exact rounds_zero format .positive
  obtain ⟨m, hm⟩ : ∃ m, n <<< format.mantissaBits * 10 ^ 0 = m := ⟨_, rfl⟩
  have hvalue : (m : ℚ) * 2 ^ (-(format.mantissaBits : ℤ)) = n := by
    rw [← hm, pow_zero, mul_one, Nat.shiftLeft_eq, zpow_neg, zpow_natCast]
    push_cast
    rw [mul_assoc, mul_inv_cancel₀ (by positivity), mul_one]
  have hexponent : -(format.mantissaBits : ℤ) ≤
      format.targetExponent (totalExponent m (-(format.mantissaBits : ℤ))) := by
    have hlog : format.mantissaBits ≤ m.log2 := by
      have hpow := Nat.two_pow_pos format.mantissaBits
      have hle : 2 ^ format.mantissaBits ≤ m := by
        rw [← hm, pow_zero, mul_one, Nat.shiftLeft_eq]
        exact Nat.le_mul_of_pos_left _ hn
      exact (Nat.le_log2 (by omega)).mpr hle
    unfold Format.targetExponent totalExponent
    omega
  have hrounds := rounds_roundWithAccuracy (cutFrom_exact m) hexponent .positive
  rw [hvalue, signed] at hrounds
  have hpos : (0 : ℤ) ≤ 2 ^ format.exponentBits := by positivity
  rw [UnpackedFloat.ofScientific, dif_neg hn.ne', if_neg (by omega), if_neg (by omega),
    if_pos le_rfl]
  subst hm
  have hsign : Sign.positive * Sign.positive = Sign.positive := rfl
  simpa [UnpackedFloat.mul, hsign] using hrounds

/-! ## Products and quotients -/

/-- A value that is not tiny grows by no more than a part in `2 ^ 53` when it is rounded. -/
theorem value_le_of_rounds {x : ℚ} {f : UnpackedFloat} (h : Rounds .binary64 x f)
    (hx : 1 / 2 ^ 53 ≤ x) : value f ≤ x * (1 + 1 / 2 ^ 53) := by
  have hnonneg : 0 ≤ x := le_trans (by positivity) hx
  have herror := h.error
  have hmin : Format.binary64.minExponent - 1 = -1075 := by decide
  have hbits : (2 : ℚ) ^ (-(Format.binary64.mantissaBits : ℤ)) = 1 / 2 ^ 53 := by
    norm_num [Format.mantissaBits]
  -- half the spacing of the smallest numbers does not count
  have hunits : (2 : ℚ) ^ (-1075 : ℤ) ≤ x * (1 / 2 ^ 53) := calc
    (2 : ℚ) ^ (-1075 : ℤ) ≤ 2 ^ (-106 : ℤ) := zpow_le_zpow_right₀ (by norm_num) (by decide)
    _ = 1 / 2 ^ 53 * (1 / 2 ^ 53) := by norm_num
    _ ≤ x * (1 / 2 ^ 53) := mul_le_mul_of_nonneg_right hx (by positivity)
  rw [hmin, hbits, abs_of_nonneg hnonneg, max_eq_left hunits] at herror
  linarith [(abs_le.mp herror).2]

/-- Up to `2 ^ 53` equal terms, each grown by a part in `2 ^ 53`, are no more than one term more. -/
theorem grown_mul_le {n : ℕ} {x : ℚ} (hn : n ≤ 2 ^ 53) (hx : 0 ≤ x) :
    n * (x * (1 + 1 / 2 ^ 53)) ≤ (n + 1) * x := by
  have hpart : (n : ℚ) / 2 ^ 53 ≤ 1 := by
    rw [div_le_one (by positivity)]
    exact_mod_cast hn
  calc n * (x * (1 + 1 / 2 ^ 53)) = (n + n / 2 ^ 53) * x := by ring
    _ ≤ (n + 1) * x := mul_le_mul_of_nonneg_right (by linarith) hx

section

variable {a b : ℕ} (ha : 0 < a) (ha' : a < 2 ^ 53) (hb : 0 < b) (hb' : b < 2 ^ 53)

include ha ha' hb hb'

/-- A quotient of whole numbers is too large by no more than a part in `2 ^ 53`. -/
theorem ofNat_div_bounds :
    (exact (Float.ofNat a / Float.ofNat b)).isFinite = true ∧
      0 ≤ value (exact (Float.ofNat a / Float.ofNat b)) ∧
      value (exact (Float.ofNat a / Float.ofNat b)) ≤ (a : ℚ) / b * (1 + 1 / 2 ^ 53) := by
  obtain ⟨hfiniteA, hvalueA⟩ := value_ofNat ha'
  obtain ⟨hfiniteB, hvalueB⟩ := value_ofNat hb'
  have hone : (1 : ℚ) ≤ a := by exact_mod_cast ha
  have hone' : (1 : ℚ) ≤ b := by exact_mod_cast hb
  have htop : (b : ℚ) ≤ 2 ^ 53 := by exact_mod_cast hb'.le
  have hpos : (0 : ℚ) < b := one_pos.trans_le hone'
  have hnonneg : (0 : ℚ) ≤ (a : ℚ) / b := by positivity
  have hquotient : (1 : ℚ) / 2 ^ 53 ≤ (a : ℚ) / b := div_le_div₀ (by positivity) hone hpos htop
  have hsmall : |(a : ℚ) / b| ≤ maxFinite .binary64 := by
    rw [abs_of_nonneg hnonneg]
    exact (div_le_self (by positivity) hone').trans (natCast_le_maxFinite64 ha')
  have hword := rounds_div64 hfiniteA hfiniteB (by rw [hvalueB]; exact hpos.ne')
    (by rwa [hvalueA, hvalueB])
  rw [hvalueA, hvalueB] at hword
  exact ⟨hword.isFinite, hword.le_of_ge 0 (representable_zero _) hnonneg,
    value_le_of_rounds hword hquotient⟩

/-- A product of whole numbers is too large by no more than a part in `2 ^ 53`. -/
theorem ofNat_mul_bounds :
    (exact (Float.ofNat a * Float.ofNat b)).isFinite = true ∧
      0 ≤ value (exact (Float.ofNat a * Float.ofNat b)) ∧
      value (exact (Float.ofNat a * Float.ofNat b)) ≤ (a : ℚ) * b * (1 + 1 / 2 ^ 53) := by
  obtain ⟨hfiniteA, hvalueA⟩ := value_ofNat ha'
  obtain ⟨hfiniteB, hvalueB⟩ := value_ofNat hb'
  have hone : (1 : ℚ) ≤ (a : ℚ) * b := by exact_mod_cast Nat.mul_pos ha hb
  have hnonneg : (0 : ℚ) ≤ (a : ℚ) * b := by positivity
  have htopA : (a : ℚ) ≤ 2 ^ 53 := by exact_mod_cast ha'.le
  have htopB : (b : ℚ) ≤ 2 ^ 53 := by exact_mod_cast hb'.le
  have hsmall : |(a : ℚ) * b| ≤ maxFinite .binary64 := by
    rw [abs_of_nonneg hnonneg]
    calc (a : ℚ) * b ≤ 2 ^ 53 * 2 ^ 53 := mul_le_mul htopA htopB (by positivity) (by positivity)
      _ = 2 ^ 106 := by norm_num
      _ ≤ maxFinite .binary64 := two_pow_le_maxFinite (by decide)
  have hword := rounds_mul64 hfiniteA hfiniteB (by rwa [hvalueA, hvalueB])
  rw [hvalueA, hvalueB] at hword
  exact ⟨hword.isFinite, hword.le_of_ge 0 (representable_zero _) hnonneg,
    value_le_of_rounds hword (le_trans (by norm_num) hone)⟩

end

/-! ## Readings -/

variable {m : ℕ} {e : ℤ} {f g : UnpackedFloat} {limit n : ℕ}

private theorem floorScaled_bounds (m : ℕ) (e : ℤ) :
    (floorScaled m e : ℚ) ≤ m * 2 ^ e ∧ (m : ℚ) * 2 ^ e < floorScaled m e + 1 := by
  by_cases he : 0 ≤ e
  · obtain ⟨k, rfl⟩ := Int.eq_ofNat_of_zero_le he
    rw [floorScaled, if_pos he, Int.toNat_natCast, Nat.shiftLeft_eq, zpow_natCast]
    push_cast
    exact ⟨le_rfl, lt_add_one _⟩
  · obtain ⟨k, hk⟩ : ∃ k : ℕ, (-e).toNat = k := ⟨_, rfl⟩
    have hneg : e = -(k : ℤ) := by omega
    have hpos : (0 : ℚ) < 2 ^ k := by positivity
    rw [floorScaled, if_neg he, hk, Nat.shiftRight_eq_div_pow, hneg, zpow_neg, zpow_natCast, ← div_eq_mul_inv,
      le_div_iff₀ hpos, div_lt_iff₀ hpos]
    constructor
    · exact_mod_cast Nat.div_mul_le_self m (2 ^ k)
    · rw [mul_comm]
      exact_mod_cast Nat.lt_mul_div_succ m (Nat.two_pow_pos k)

/-- Cutting off the fraction gives the largest whole number that is no larger, within the limit. -/
theorem truncWithin_bounds (hf : f.isFinite = true) (hpos : 0 ≤ value f) (hlt : value f < limit) :
    (truncWithin limit f : ℚ) ≤ value f ∧ value f < truncWithin limit f + 1 := by
  cases f with
  | infinity s => cases hf
  | notANumber => cases hf
  | zero s =>
    have hzero : truncWithin limit (.zero s) = 0 := rfl
    rw [hzero, value_zero, Nat.cast_zero, zero_add]
    exact ⟨le_rfl, one_pos⟩
  | finite s m e hm =>
    have hsize : (0 : ℚ) < m * 2 ^ e := by
      have hm' : (0 : ℚ) < m := by exact_mod_cast hm
      positivity
    cases s with
    | negative =>
      rw [value, signed] at hpos
      linarith
    | positive =>
      obtain ⟨hle, hlt'⟩ := floorScaled_bounds m e
      rw [value, signed] at hlt ⊢
      have hlimit : floorScaled m e ≤ limit := by exact_mod_cast (hle.trans_lt hlt).le
      rw [truncWithin, wholeWithin, min_eq_right hlimit]
      exact ⟨hle, hlt'⟩

/-- What is not above zero is read as zero. -/
theorem truncWithin_eq_zero (hf : f.isFinite = true) (h : value f ≤ 0) :
    truncWithin limit f = 0 := by
  cases f with
  | infinity | notANumber => cases hf
  | zero => rfl
  | finite s m e hm =>
    cases s with
    | negative => rfl
    | positive => exact absurd h (not_le.mpr (value_pos hm e))

/-- Cutting off the fraction keeps the order of values. -/
theorem truncWithin_mono (hf : f.isFinite = true) (hg : g.isFinite = true)
    (h : value f ≤ value g) : truncWithin limit f ≤ truncWithin limit g := by
  rcases le_or_gt (value f) 0 with hzero | hpos
  · rw [truncWithin_eq_zero hf hzero]
    exact Nat.zero_le _
  have hpos' := hpos.trans_le h
  cases f with
  | infinity | notANumber => cases hf
  | zero => exact absurd hpos (lt_irrefl 0)
  | finite s m e =>
    cases g with
    | infinity | notANumber => cases hg
    | zero => exact absurd hpos' (lt_irrefl 0)
    | finite t m' e' =>
      have hsize (m : ℕ) (e : ℤ) : (0 : ℚ) ≤ m * 2 ^ e := by positivity
      cases s with
      | negative => exact absurd hpos (not_lt.mpr (neg_nonpos.mpr (hsize m e)))
      | positive =>
        cases t with
        | negative => exact absurd hpos' (not_lt.mpr (neg_nonpos.mpr (hsize m' e')))
        | positive =>
          have hfloor := (floorScaled_bounds m e).1
          have hceil := (floorScaled_bounds m' e').2
          rw [value, signed, value, signed] at h
          have hlt : (floorScaled m e : ℚ) < (floorScaled m' e' + 1 : ℕ) := by
            push_cast
            linarith
          exact min_le_min_left limit (Nat.lt_succ_iff.mp (by exact_mod_cast hlt))

/-- Rounding to a whole number passes no whole number. -/
theorem roundWithin_le (hle : value f ≤ n) (hf : f.isFinite = true) : roundWithin limit f ≤ n := by
  cases f with
  | infinity s => cases hf
  | notANumber => cases hf
  | zero s => exact Nat.zero_le n
  | finite s m e hm =>
    cases s with
    | negative => exact Nat.zero_le n
    | positive =>
      have hdouble : floorScaled m (e + 1) ≤ 2 * n := by
        have hbound := (floorScaled_bounds m (e + 1)).1
        rw [zpow_add_one₀ (by norm_num)] at hbound
        rw [value, signed] at hle
        exact_mod_cast (by linarith : (floorScaled m (e + 1) : ℚ) ≤ 2 * n)
      rw [roundWithin, wholeWithin]
      exact (Nat.min_le_right _ _).trans (by omega)

end Animatic.Number
