import Animatic.Proofs.Number.Rounding

/-!
# Arithmetic of numbers

The result of an operation on finite numbers is what the exact result rounds to.

* `rounds_nearest`: a change of format.
* `rounds_add`, `rounds_sub`, `rounds_mul`, `rounds_div`: the operations.
* `Rounds.unpack_pack`: a word keeps the result, unless it is too large for the format.
* `rounds_mul64`, `rounds_div64`, `rounds_sub64`: the operations on words.
-/

namespace Animatic.Number

open Float.Model (Format UnpackedFloat totalExponent)
open Float.Model.UnpackedFloat

variable {format : Format} {m m₁ m₂ : ℕ} {e e₁ e₂ : ℤ}

/-! ## Rounding without a bound on the exponent -/

private theorem log2_shiftLeft_ge (hm : 0 < m) (n : ℕ) : m.log2 + n ≤ (m <<< n).log2 := by
  have hpos : m <<< n ≠ 0 := by
    rw [Nat.shiftLeft_eq]
    exact (Nat.mul_pos hm (Nat.two_pow_pos n)).ne'
  rw [Nat.le_log2 hpos, Nat.pow_add, Nat.shiftLeft_eq]
  exact Nat.mul_le_mul_right _ (Nat.log2_self_le hm.ne')

/-- A shift to a smaller exponent keeps the value. -/
private theorem value_decrease (m : ℕ) (e target : ℤ) :
    ((m <<< (e - target).toNat : ℕ) : ℚ) * 2 ^ (e - (e - target).toNat) = m * 2 ^ e := by
  rw [Nat.shiftLeft_eq, zpow_sub₀ (by norm_num), zpow_natCast]
  push_cast
  field_simp

theorem rounds_round (format : Format) (hm : 0 < m) (e : ℤ) (s : Sign) :
    Rounds format (signed s (m * 2 ^ e)) (UnpackedFloat.round format s m e) := by
  rw [UnpackedFloat.round, decreaseExponent]
  dsimp only
  generalize hk : (e - format.targetExponent (totalExponent m e)).toNat = k
  have hlog := log2_shiftLeft_ge hm k
  have hbound : e - k ≤ format.targetExponent (totalExponent (m <<< k) (e - k)) := by
    unfold Format.targetExponent totalExponent at *
    omega
  have hrounds := rounds_roundWithAccuracy (cutFrom_exact (m <<< k)) hbound s
  rwa [← hk, value_decrease, hk] at hrounds

theorem rounds_normalize (format : Format) (n e : ℤ) (s : Sign) :
    Rounds format (n * 2 ^ e) (UnpackedFloat.normalize format n e s) := by
  rw [UnpackedFloat.normalize]
  rcases lt_trichotomy n 0 with hn | rfl | hn
  · rw [compare_lt_iff_lt.mpr hn]
    have hpos : 0 < (-n).toNat := by omega
    have hrounds := rounds_round format hpos e .negative
    have hcast : (((-n).toNat : ℕ) : ℚ) = -n := by exact_mod_cast Int.toNat_of_nonneg (by omega)
    rwa [signed, hcast, neg_mul, neg_neg] at hrounds
  · rw [compare_eq_iff_eq.mpr rfl, Int.cast_zero, zero_mul]
    exact rounds_zero format s
  · rw [compare_gt_iff_gt.mpr hn]
    have hpos : 0 < n.toNat := by omega
    have hrounds := rounds_round format hpos e .positive
    have hcast : ((n.toNat : ℕ) : ℚ) = n := by exact_mod_cast Int.toNat_of_nonneg (by omega)
    rwa [signed, hcast] at hrounds

/-- A number of a format is what its own value rounds to. -/
theorem rounds_self {f : UnpackedFloat} (hf : f.isFinite = true) (hc : Canonical format f) :
    Rounds format (value f) f where
  isFinite := hf
  canonical := hc
  le_of_le _ _ h := h
  le_of_ge _ _ h := h
  nearest v _ := by
    rw [sub_self, abs_zero]
    exact abs_nonneg _
  error := by
    have hpos : (0 : ℚ) ≤ 2 ^ (format.minExponent - 1) := by positivity
    rw [sub_self, abs_zero]
    exact le_max_of_le_right hpos

theorem rounds_nearest {f : UnpackedFloat} (hf : f.isFinite = true) :
    Rounds format (value f) (nearest format f) := by
  cases f with
  | finite s m e hm => exact rounds_round format hm e s
  | zero s => exact rounds_zero format s
  | infinity s => cases hf
  | notANumber => cases hf

/-! ## Sums and differences -/

private theorem signed_apply (s : Sign) (n : ℕ) : ((s.apply n : ℤ) : ℚ) = signed s n := by
  cases s with
  | negative => exact Int.cast_neg _
  | positive => rfl

private theorem signed_mul (s : Sign) (x y : ℚ) : signed s (x * y) = signed s x * y := by
  cases s with
  | negative => exact (neg_mul x y).symm
  | positive => rfl

/-- A mantissa with its sign, shifted to an exponent that is not larger. -/
private theorem value_shift (s : Sign) {target : ℤ} (h : target ≤ e) :
    ((s.apply (m <<< (e - target).toNat : ℕ) : ℤ) : ℚ) * 2 ^ target = signed s (m * 2 ^ e) := by
  have htarget : target = e - (e - target).toNat := by omega
  rw [signed_apply, ← signed_mul]
  nth_rewrite 2 [htarget]
  rw [value_decrease]

section

variable {f g : UnpackedFloat} (hf : f.isFinite = true) (hg : g.isFinite = true)
  (cf : Canonical format f) (cg : Canonical format g)

include hf hg cf cg

theorem rounds_add : Rounds format (value f + value g) (add format f g) := by
  cases f with
  | infinity s => cases hf
  | notANumber => cases hf
  | zero s =>
    cases g with
    | infinity t => cases hg
    | notANumber => cases hg
    | zero t =>
      rw [value_zero, value_zero, add_zero, add]
      split <;> exact rounds_zero format _
    | finite t m e hm =>
      rw [value_zero, zero_add]
      exact rounds_self rfl cg
  | finite s m₁ e₁ h₁ =>
    cases g with
    | infinity t => cases hg
    | notANumber => cases hg
    | zero t =>
      rw [value_zero, add_zero]
      exact rounds_self rfl cf
    | finite t m₂ e₂ h₂ =>
      have hrounds := rounds_normalize format
        (s.apply (m₁ <<< (e₁ - min e₁ e₂).toNat : ℕ) + t.apply (m₂ <<< (e₂ - min e₁ e₂).toNat : ℕ))
        (min e₁ e₂) .positive
      rwa [Int.cast_add, add_mul, value_shift s (min_le_left e₁ e₂),
        value_shift t (min_le_right e₁ e₂)] at hrounds

theorem rounds_sub : Rounds format (value f - value g) (sub format f g) := by
  cases f with
  | infinity s => cases hf
  | notANumber => cases hf
  | zero s =>
    cases g with
    | infinity t => cases hg
    | notANumber => cases hg
    | zero t =>
      rw [value_zero, value_zero, sub_zero, sub]
      split <;> exact rounds_zero format _
    | finite t m e hm =>
      rw [value_zero, zero_sub]
      have hneg : -value (.finite t m e hm) = value (.finite (-t) m e hm) := by
        cases t with
        | negative => exact neg_neg _
        | positive => rfl
      rw [hneg]
      exact rounds_self rfl cg
  | finite s m₁ e₁ h₁ =>
    cases g with
    | infinity t => cases hg
    | notANumber => cases hg
    | zero t =>
      rw [value_zero, sub_zero]
      exact rounds_self rfl cf
    | finite t m₂ e₂ h₂ =>
      have hrounds := rounds_normalize format
        (s.apply (m₁ <<< (e₁ - min e₁ e₂).toNat : ℕ) - t.apply (m₂ <<< (e₂ - min e₁ e₂).toNat : ℕ))
        (min e₁ e₂) .positive
      rwa [Int.cast_sub, sub_mul, value_shift s (min_le_left e₁ e₂),
        value_shift t (min_le_right e₁ e₂)] at hrounds

end

/-! ## Products -/

private theorem signed_mul_signed (s t : Sign) (x y : ℚ) :
    signed (s * t) (x * y) = signed s x * signed t y := by
  cases s <;> cases t
  · exact (neg_mul_neg x y).symm
  · exact (neg_mul x y).symm
  · exact (mul_neg x y).symm
  · rfl

private theorem two_zpow_add (a b : ℤ) : (2 : ℚ) ^ (a + b) = 2 ^ a * 2 ^ b :=
  zpow_add₀ (by norm_num) a b

/-- The product of two canonical mantissas has digits enough, or is too small for the format. -/
private theorem mul_exponent_le {s t : Sign} {h₁ : 0 < m₁} {h₂ : 0 < m₂}
    (c₁ : Canonical format (.finite s m₁ e₁ h₁)) (c₂ : Canonical format (.finite t m₂ e₂ h₂)) :
    e₁ + e₂ ≤ format.targetExponent (totalExponent (m₁ * m₂) (e₁ + e₂)) := by
  have hmin := minExponent_eq format
  have hbits : format.mantissaBits = 1 + format.mantissaBitsWithoutImplicit := rfl
  have hpos : m₁ * m₂ ≠ 0 := (Nat.mul_pos h₁ h₂).ne'
  have hleft : m₁ ≤ m₁ * m₂ := Nat.le_mul_of_pos_right m₁ h₂
  have hright : m₂ ≤ m₁ * m₂ := Nat.le_mul_of_pos_left m₂ h₁
  unfold Format.targetExponent totalExponent
  by_cases hfull : 2 ^ format.mantissaBitsWithoutImplicit ≤ m₁ * m₂
  · have hlog := (Nat.le_log2 hpos).mpr hfull
    omega
  · have he₁ := c₁.2.2.resolve_left (by omega)
    have he₂ := c₂.2.2.resolve_left (by omega)
    omega

theorem rounds_mul {f g : UnpackedFloat} (hf : f.isFinite = true) (hg : g.isFinite = true)
    (cf : Canonical format f) (cg : Canonical format g) :
    Rounds format (value f * value g) (mul format f g) := by
  cases f with
  | infinity s => cases hf
  | notANumber => cases hf
  | zero s =>
    rw [value_zero, zero_mul]
    cases g with
    | infinity t => cases hg
    | notANumber => cases hg
    | zero t => exact rounds_zero format _
    | finite t m e hm => exact rounds_zero format _
  | finite s m₁ e₁ h₁ =>
    cases g with
    | infinity t => cases hg
    | notANumber => cases hg
    | zero t =>
      rw [value_zero, mul_zero]
      exact rounds_zero format _
    | finite t m₂ e₂ h₂ =>
      have hrounds := rounds_roundWithAccuracy (cutFrom_exact (m₁ * m₂)) (mul_exponent_le cf cg)
        (s * t)
      have hvalue : ((m₁ * m₂ : ℕ) : ℚ) * 2 ^ (e₁ + e₂) = m₁ * 2 ^ e₁ * (m₂ * 2 ^ e₂) := by
        rw [two_zpow_add]
        push_cast
        ring
      rwa [hvalue, signed_mul_signed] at hrounds

/-! ## Quotients -/

private theorem signed_div_signed (s t : Sign) (x y : ℚ) :
    signed (s / t) (x / y) = signed s x / signed t y := by
  cases s <;> cases t
  · exact (neg_div_neg_eq x y).symm
  · exact (neg_div y x).symm
  · exact (div_neg x).symm
  · rfl

/-- The quotient and the remainder of a division tell where the fraction stands. -/
private theorem cutFrom_fraction (m₁ : ℕ) (h : 0 < m₂) :
    CutFrom (.ofMantissaAndAccuracy (m₁ / m₂) (accuracyOfFraction (m₁ % m₂) m₂))
      ((m₁ : ℚ) / m₂) := by
  have hpos : (0 : ℚ) < m₂ := by exact_mod_cast h
  have hquotient : (m₁ : ℚ) / m₂ = (m₁ / m₂ : ℕ) + ((m₁ % m₂ : ℕ) : ℚ) / m₂ := by
    rw [div_eq_iff hpos.ne', add_mul, div_mul_cancel₀ _ hpos.ne', mul_comm]
    exact_mod_cast (Nat.div_add_mod m₁ m₂).symm
  have hlt : ((m₁ % m₂ : ℕ) : ℚ) < m₂ := by exact_mod_cast Nat.mod_lt m₁ h
  rw [hquotient, accuracyOfFraction]
  generalize m₁ / m₂ = q
  generalize m₁ % m₂ = r at *
  by_cases hzero : r = 0
  · rw [if_pos hzero]
    change (q : ℚ) + (r : ℚ) / m₂ = q
    rw [hzero, Nat.cast_zero, zero_div, add_zero]
  · rw [if_neg hzero]
    have hr : (0 : ℚ) < r := by exact_mod_cast Nat.pos_of_ne_zero hzero
    have hfraction : (0 : ℚ) < (r : ℚ) / m₂ := div_pos hr hpos
    have hone : (r : ℚ) / m₂ < 1 := (div_lt_one hpos).mpr hlt
    rcases lt_trichotomy (2 * r) m₂ with hhalf | hhalf | hhalf
    · have hless : (r : ℚ) / m₂ < 1 / 2 := by
        rw [div_lt_div_iff₀ hpos two_pos]
        exact_mod_cast (by omega : r * 2 < 1 * m₂)
      rw [compare_lt_iff_lt.mpr hhalf]
      change (q : ℚ) < q + (r : ℚ) / m₂ ∧ (q : ℚ) + (r : ℚ) / m₂ < q + 1 / 2
      exact ⟨by linarith, by linarith⟩
    · have hequal : (r : ℚ) / m₂ = 1 / 2 := by
        rw [div_eq_div_iff hpos.ne' two_ne_zero]
        exact_mod_cast (by omega : r * 2 = 1 * m₂)
      rw [compare_eq_iff_eq.mpr hhalf]
      change (q : ℚ) + (r : ℚ) / m₂ = q + 1 / 2
      rw [hequal]
    · have hgreater : 1 / 2 < (r : ℚ) / m₂ := by
        rw [div_lt_div_iff₀ two_pos hpos]
        exact_mod_cast (by omega : 1 * m₂ < r * 2)
      rw [compare_gt_iff_gt.mpr hhalf]
      change (q : ℚ) + 1 / 2 < q + (r : ℚ) / m₂ ∧ (q : ℚ) + (r : ℚ) / m₂ < q + 1
      exact ⟨by linarith, by linarith⟩

private theorem log2_le_log2_div (h₁ : 0 < m₁) (h₂ : 0 < m₂) :
    m₁.log2 ≤ (m₁ / m₂).log2 + m₂.log2 + 1 := by
  by_contra hlt
  have hle : 2 ^ (m₁.log2 - m₂.log2 - 1) ≤ m₁ / m₂ := by
    rw [Nat.le_div_iff_mul_le h₂]
    calc 2 ^ (m₁.log2 - m₂.log2 - 1) * m₂
        ≤ 2 ^ (m₁.log2 - m₂.log2 - 1) * 2 ^ (m₂.log2 + 1) :=
          Nat.mul_le_mul_left _ Nat.lt_log2_self.le
      _ = 2 ^ m₁.log2 := by
          rw [← Nat.pow_add]
          congr 1
          omega
      _ ≤ m₁ := Nat.log2_self_le h₁.ne'
  have hpos : m₁ / m₂ ≠ 0 := (Nat.lt_of_lt_of_le (Nat.two_pow_pos _) hle).ne'
  have hlog := (Nat.le_log2 hpos).mpr hle
  omega

theorem rounds_div {f g : UnpackedFloat} (hf : f.isFinite = true) (hg : g.isFinite = true)
    (hne : value g ≠ 0) : Rounds format (value f / value g) (div format f g) := by
  cases g with
  | infinity t => cases hg
  | notANumber => cases hg
  | zero t => exact absurd (value_zero t) hne
  | finite t m₂ e₂ h₂ =>
    cases f with
    | infinity s => cases hf
    | notANumber => cases hf
    | zero s =>
      rw [value_zero, zero_div]
      exact rounds_zero format _
    | finite s m₁ e₁ h₁ =>
      obtain ⟨target, htarget⟩ : ∃ target, min (e₁ - e₂)
          (format.targetExponent (totalExponent m₁ e₁ - totalExponent m₂ e₂)) = target := ⟨_, rfl⟩
      obtain ⟨k, hk⟩ : ∃ k, (e₁ - e₂ - target).toNat = k := ⟨_, rfl⟩
      have hdiv : div format (.finite s m₁ e₁ h₁) (.finite t m₂ e₂ h₂) =
          roundWithAccuracy format (s / t) (m₁ <<< k / m₂) target
            (accuracyOfFraction (m₁ <<< k % m₂) m₂) := by
        rw [div, divCore, htarget, hk]
      have hpos : 0 < m₁ <<< k := by
        rw [Nat.shiftLeft_eq]
        exact Nat.mul_pos h₁ (Nat.two_pow_pos k)
      -- the dividend is shifted until the quotient has digits enough
      have hbound : target ≤ format.targetExponent (totalExponent (m₁ <<< k / m₂) target) := by
        have hshift := log2_shiftLeft_ge h₁ k
        have hlog := log2_le_log2_div hpos h₂
        unfold Format.targetExponent totalExponent at *
        omega
      have hvalue : ((m₁ <<< k : ℕ) : ℚ) / m₂ * 2 ^ target =
          m₁ * 2 ^ e₁ / (m₂ * 2 ^ e₂) := by
        have htarget' : target = e₁ - e₂ - k := by omega
        rw [htarget', Nat.shiftLeft_eq, zpow_sub₀ (by norm_num), zpow_sub₀ (by norm_num),
          zpow_natCast]
        push_cast
        field_simp
      have hrounds := rounds_roundWithAccuracy (cutFrom_fraction (m₁ <<< k) h₂) hbound (s / t)
      rw [hdiv]
      rwa [hvalue, signed_div_signed] at hrounds

/-! ## Words -/

/-- The largest finite value of a format. -/
def maxFinite (format : Format) : ℚ := (2 ^ format.mantissaBits - 1) * 2 ^ maxExponent format

section

variable {f : UnpackedFloat} {x : ℚ} (wide : 1 < format.exponentBits)

include wide

private theorem minExponent_le_maxExponent : format.minExponent ≤ maxExponent format := by
  have hpow : 2 ^ 2 ≤ 2 ^ format.exponentBits := Nat.pow_le_pow_right (by decide) wide
  have hcast : ((2 ^ format.exponentBits : ℕ) : ℤ) = 2 ^ format.exponentBits := by push_cast; rfl
  rw [maxExponent]
  omega

theorem representable_maxFinite : Representable format (maxFinite format) := by
  have hpos := Nat.two_pow_pos format.mantissaBits
  refine ⟨(2 ^ format.mantissaBits - 1 : ℕ), maxExponent format, ?_,
    minExponent_le_maxExponent wide, ?_⟩
  · rw [Int.natAbs_natCast]
    exact Nat.sub_le _ _
  · rw [maxFinite]
    push_cast [Nat.one_le_two_pow]
    rfl

/-- The size of a canonical number shows whether it is in range. -/
theorem inRange_of_abs_le (hc : Canonical format f) (h : |value f| ≤ maxFinite format) :
    InRange format f := by
  cases f with
  | finite s m e hm =>
    by_contra hout
    rw [InRange, not_le] at hout
    have hmin := minExponent_le_maxExponent wide
    have hfull : 2 ^ format.mantissaBitsWithoutImplicit ≤ m := hc.2.2.resolve_right (by omega)
    have hstep : (2 : ℚ) ^ (maxExponent format + 1) ≤ 2 ^ e :=
      zpow_le_zpow_right₀ (by norm_num) hout
    have hsize : (2 : ℚ) ^ format.mantissaBits * 2 ^ maxExponent format ≤ m * 2 ^ e := calc
      (2 : ℚ) ^ format.mantissaBits * 2 ^ maxExponent format
          = 2 ^ format.mantissaBitsWithoutImplicit * 2 ^ (maxExponent format + 1) := by
        rw [two_zpow_add, Format.mantissaBits, pow_add]
        ring
      _ ≤ m * 2 ^ e := mul_le_mul (by exact_mod_cast hfull) hstep (by positivity) (by positivity)
    have hpos : (0 : ℚ) < 2 ^ maxExponent format := by positivity
    rw [value, abs_signed, abs_of_nonneg (by positivity), maxFinite, sub_mul, one_mul] at h
    linarith
  | zero s => trivial
  | infinity s => trivial
  | notANumber => trivial

omit wide in
/-- A number of a format is no larger than the largest one. -/
theorem abs_value_le (hc : Canonical format f) (hr : InRange format f) :
    |value f| ≤ maxFinite format := by
  have hone : (1 : ℚ) ≤ 2 ^ format.mantissaBits := one_le_pow₀ (by norm_num)
  have hpos : (0 : ℚ) ≤ maxFinite format :=
    mul_nonneg (sub_nonneg.mpr hone) (by positivity)
  cases f with
  | finite s m e hm =>
    have hm' : (m : ℚ) ≤ 2 ^ format.mantissaBits - 1 := by
      have hlt : ((m + 1 : ℕ) : ℚ) ≤ ((2 ^ format.mantissaBits : ℕ) : ℚ) := Nat.cast_le.mpr hc.1
      push_cast at hlt
      linarith
    have hstep : (2 : ℚ) ^ e ≤ 2 ^ maxExponent format := zpow_le_zpow_right₀ (by norm_num) hr
    rw [value, abs_signed, abs_of_nonneg (by positivity)]
    exact mul_le_mul hm' hstep (by positivity) (sub_nonneg.mpr hone)
  | zero s => exact (abs_zero (α := ℚ)).trans_le hpos
  | infinity s => exact (abs_zero (α := ℚ)).trans_le hpos
  | notANumber => exact (abs_zero (α := ℚ)).trans_le hpos

omit wide in
/-- Rounding does not leave a symmetric interval with representable ends. -/
theorem Rounds.abs_value_le (h : Rounds format x f) {v : ℚ} (hv : Representable format v)
    (hx : |x| ≤ v) : |value f| ≤ v := by
  rw [abs_le] at hx ⊢
  exact ⟨h.le_of_ge _ hv.neg hx.1, h.le_of_le _ hv hx.2⟩

/-- A word keeps a rounded value that is not too large. -/
theorem Rounds.unpack_pack (h : Rounds format x f) (hx : |x| ≤ maxFinite format) :
    unpack format (pack format f) = f :=
  Number.unpack_pack h.canonical
    (inRange_of_abs_le wide h.canonical (h.abs_value_le (representable_maxFinite wide) hx))

theorem Rounds.word (h : Rounds format x f) (hx : |x| ≤ maxFinite format) :
    Rounds format x (unpack format (pack format f)) := by
  rwa [h.unpack_pack wide hx]

end

/-! ## Operations on words -/

theorem wide64 : 1 < Format.binary64.exponentBits := by decide

theorem wide32 : 1 < Format.binary32.exponentBits := by decide

theorem canonical_exact (x : Float) : Canonical .binary64 (exact x) :=
  (canonical_unpack wide64 _).1

theorem canonical_exact32 (x : Float32) : Canonical .binary32 (exact32 x) :=
  (canonical_unpack wide32 _).1

section

variable {x y : Float} (hx : (exact x).isFinite = true) (hy : (exact y).isFinite = true)

include hx hy

theorem rounds_mul64 (hsmall : |value (exact x) * value (exact y)| ≤ maxFinite .binary64) :
    Rounds .binary64 (value (exact x) * value (exact y)) (exact (x * y)) :=
  (rounds_mul hx hy (canonical_exact x) (canonical_exact y)).word wide64 hsmall

theorem rounds_sub64 (hsmall : |value (exact x) - value (exact y)| ≤ maxFinite .binary64) :
    Rounds .binary64 (value (exact x) - value (exact y)) (exact (x - y)) :=
  (rounds_sub hx hy (canonical_exact x) (canonical_exact y)).word wide64 hsmall

theorem rounds_div64 (hne : value (exact y) ≠ 0)
    (hsmall : |value (exact x) / value (exact y)| ≤ maxFinite .binary64) :
    Rounds .binary64 (value (exact x) / value (exact y)) (exact (x / y)) :=
  (rounds_div hx hy hne).word wide64 hsmall

end

section

variable {x y : Float32} (hx : (exact32 x).isFinite = true) (hy : (exact32 y).isFinite = true)

include hx hy

theorem rounds_mul32 (hsmall : |value (exact32 x) * value (exact32 y)| ≤ maxFinite .binary32) :
    Rounds .binary32 (value (exact32 x) * value (exact32 y)) (exact32 (x * y)) :=
  (rounds_mul hx hy (canonical_exact32 x) (canonical_exact32 y)).word wide32 hsmall

theorem rounds_sub32 (hsmall : |value (exact32 x) - value (exact32 y)| ≤ maxFinite .binary32) :
    Rounds .binary32 (value (exact32 x) - value (exact32 y)) (exact32 (x - y)) :=
  (rounds_sub hx hy (canonical_exact32 x) (canonical_exact32 y)).word wide32 hsmall

end

end Animatic.Number
