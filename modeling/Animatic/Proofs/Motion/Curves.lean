import Animatic.Proofs.Geometry.Sampling
import Animatic.Proofs.Motion.Progress

/-!
# Curves

All curves end where the motion does. On the way they give numbers that are not negative and not far
above one: only the curve that both starts and stops slowly may be rounded to more than one.

* `Easing.apply_one`: the end of a curve.
* `Easing.isDouble_apply`: what a curve gives for a number.
-/

namespace Animatic

open Number
open Float.Model (Format UnpackedFloat)
open Float.Model.UnpackedFloat

theorem Easing.apply_one (easing : Easing) : easing.apply 1 = 1 := by
  cases easing <;> decide

/-- What is cut at both ends is a share. -/
private theorem isShare_clamp {x : Float} (hx : x.isNaN = false) : IsShare (exact (clamp 0 1 x)) := by
  have hone : IsShare (exact 1) := by
    rw [IsShare, value_one.2]
    exact ⟨value_one.1, zero_le_one, le_rfl⟩
  rw [clamp]
  by_cases hlow : x < 0
  · rw [if_pos hlow, if_neg (by decide)]
    exact ⟨rfl, le_rfl, zero_le_one⟩
  · rw [if_neg hlow]
    have hnonneg : 0 ≤ x := by
      by_contra h
      exact hlow ((not_le_iff isNaN_zero hx).mp h)
    by_cases hhigh : 1 < x
    · rw [if_pos hhigh]
      exact hone
    · rw [if_neg hhigh]
      rcases exact_of_nonneg hnonneg with hinfinite | ⟨hfinite, hvalue⟩
      · rw [← not_le_iff hx isNaN_one, not_not, le_iff_rank hx isNaN_one, ← signedWeight_exact hx,
          ← signedWeight_exact isNaN_one, hinfinite] at hhigh
        exact absurd hhigh (by decide)
      · rw [lt_iff_value value_one.1 hfinite, value_one.2, not_lt] at hhigh
        exact ⟨hfinite, hvalue, hhigh⟩

private theorem isShare_mul {x y : Float} (hx : IsShare (exact x)) (hy : IsShare (exact y)) :
    Rounds .binary64 (value (exact x) * value (exact y)) (exact (x * y)) ∧
      IsShare (exact (x * y)) := by
  have hnonneg : 0 ≤ value (exact x) * value (exact y) := mul_nonneg hx.2.1 hy.2.1
  have hone : value (exact x) * value (exact y) ≤ 1 := mul_le_one₀ hx.2.2 hy.2.1 hy.2.2
  have hrounds := rounds_mul64 hx.1 hy.1
    (by rw [abs_of_nonneg hnonneg]; exact hone.trans (one_le_maxFinite _))
  exact ⟨hrounds, isShare_of_rounds hrounds (by decide) hnonneg hone⟩

private theorem isShare_rest {x : Float} (hx : IsShare (exact x)) : IsShare (exact (1 - x)) := by
  obtain ⟨hfinite, hzero, hone⟩ := hx
  have hrounds := rounds_sub64 value_one.1 hfinite (by
    rw [value_one.2, abs_of_nonneg (by linarith)]
    linarith [one_le_maxFinite .binary64])
  rw [value_one.2] at hrounds
  exact isShare_of_rounds hrounds (by decide) (by linarith) (by linarith)

private theorem representable_two (format : Format) (hmin : format.minExponent ≤ 0)
    (hbits : 1 ≤ format.mantissaBits) : Representable format 2 := by
  have htwo : Representable format (2 : ℕ) :=
    representable_natCast hmin (Nat.pow_le_pow_right Nat.two_pos hbits)
  rwa [Nat.cast_ofNat] at htwo

/-- A number from zero to two. -/
def IsDouble (f : UnpackedFloat) : Prop := f.isFinite = true ∧ 0 ≤ value f ∧ value f ≤ 2

private theorem isDouble_of_rounds {format : Format} {x : ℚ} {f : UnpackedFloat}
    (h : Rounds format x f) (hmin : format.minExponent ≤ 0) (hbits : 1 ≤ format.mantissaBits)
    (hzero : 0 ≤ x) (htwo : x ≤ 2) : IsDouble f :=
  ⟨h.isFinite, h.le_of_ge 0 (representable_zero format) hzero,
    h.le_of_le 2 (representable_two format hmin hbits) htwo⟩

private theorem isDouble_of_isShare {f : UnpackedFloat} (h : IsShare f) : IsDouble f :=
  ⟨h.1, h.2.1, h.2.2.trans one_le_two⟩

private theorem value_two : (exact 2).isFinite = true ∧ value (exact 2) = 2 := by
  have htwo : exact 2 = .finite .positive (2 ^ 52) (-51) (by decide) := by rfl
  rw [htwo, value, signed]
  exact ⟨rfl, by norm_num⟩

private theorem value_three : (exact 3).isFinite = true ∧ value (exact 3) = 3 := by
  have hthree : exact 3 = .finite .positive (3 * 2 ^ 51) (-51) (by decide) := by rfl
  rw [hthree, value, signed]
  exact ⟨rfl, by norm_num⟩

/-- Small numbers are in the range of the format. -/
private theorem abs_le_maxFinite64 {x : ℚ} (hzero : 0 ≤ x) (hfour : x ≤ 4) :
    |x| ≤ maxFinite .binary64 := by
  have hmax : ((4 : ℕ) : ℚ) ≤ maxFinite .binary64 := natCast_le_maxFinite64 (by norm_num)
  rw [abs_of_nonneg hzero]
  exact hfour.trans hmax

/-- Three less twice a share is too large by no more than an eighth. -/
private theorem slope_bounds {t : Float} (ht : IsShare (exact t)) :
    (exact (3 - 2 * t)).isFinite = true ∧ 0 ≤ value (exact (3 - 2 * t)) ∧
      value (exact (3 - 2 * t)) ≤ 25 / 8 - 2 * value (exact t) := by
  obtain ⟨hfinite, hzero, hone⟩ := ht
  have hdouble := rounds_mul64 value_two.1 hfinite (by
    rw [value_two.2]
    exact abs_le_maxFinite64 (by linarith) (by linarith))
  rw [value_two.2] at hdouble
  have hexact : value (exact (2 * t)) = 2 * value (exact t) := by
    refine hdouble.eq ?_
    simpa using (representable_value (canonical_exact t)).two_pow_mul 1
  have hslope := rounds_sub64 value_three.1 hdouble.isFinite (by
    rw [value_three.2, hexact]
    exact abs_le_maxFinite64 (by linarith) (by linarith))
  rw [value_three.2, hexact] at hslope
  have heighth : max (|3 - 2 * value (exact t)| * 2 ^ (-(Format.binary64.mantissaBits : ℤ)))
      (2 ^ (Format.binary64.minExponent - 1)) ≤ (1 / 8 : ℚ) := by
    refine max_le ?_ ?_
    · rw [abs_of_nonneg (by linarith)]
      calc (3 - 2 * value (exact t)) * 2 ^ (-(Format.binary64.mantissaBits : ℤ))
          ≤ 4 * 2 ^ (-(5 : ℤ)) := mul_le_mul (by linarith)
            (zpow_le_zpow_right₀ (by norm_num) (by decide)) (by positivity) (by norm_num)
        _ = 1 / 8 := by norm_num
    · calc (2 : ℚ) ^ (Format.binary64.minExponent - 1) ≤ 2 ^ (-(3 : ℤ)) :=
          zpow_le_zpow_right₀ (by norm_num) (by decide)
        _ = 1 / 8 := by norm_num
  have herror := (abs_le.mp (hslope.error.trans heighth)).2
  exact ⟨hslope.isFinite, hslope.le_of_ge 0 (representable_zero _) (by linarith), by linarith⟩

/-- The curve that starts and stops slowly may be rounded to more than one, but not by much. -/
private theorem isDouble_smooth {t : Float} (ht : IsShare (exact t)) :
    IsDouble (exact (t * t * (3 - 2 * t))) := by
  obtain ⟨hrounds, hsquare⟩ := isShare_mul ht ht
  obtain ⟨hfinite, hzero, hslope⟩ := slope_bounds ht
  have hshrunk : value (exact (t * t)) ≤ value (exact t) :=
    hrounds.le_of_le _ (representable_value (canonical_exact t))
      (mul_le_of_le_one_left ht.2.1 ht.2.2)
  have hnonneg : 0 ≤ value (exact (t * t)) * value (exact (3 - 2 * t)) :=
    mul_nonneg hsquare.2.1 hzero
  have htwo : value (exact (t * t)) * value (exact (3 - 2 * t)) ≤ 2 :=
    calc value (exact (t * t)) * value (exact (3 - 2 * t))
        ≤ value (exact t) * (25 / 8 - 2 * value (exact t)) :=
          mul_le_mul hshrunk hslope hzero ht.2.1
      _ ≤ 2 := by nlinarith [sq_nonneg (value (exact t) - 25 / 32)]
  have hproduct := rounds_mul64 hsquare.1 hfinite (abs_le_maxFinite64 hnonneg (by linarith))
  exact isDouble_of_rounds hproduct (by decide) (by decide) hnonneg htwo

/-- A curve gives no number but one from zero to two. -/
theorem Easing.isDouble_apply (easing : Easing) {x : Float} (hx : x.isNaN = false) :
    IsDouble (exact (easing.apply x)) := by
  have ht := isShare_clamp hx
  cases easing with
  | linear => exact isDouble_of_isShare ht
  | easeIn => exact isDouble_of_isShare (isShare_mul ht ht).2
  | easeOut =>
    exact isDouble_of_isShare (isShare_rest (isShare_mul (isShare_rest ht) (isShare_rest ht)).2)
  | easeInOut => exact isDouble_smooth ht

theorem isDouble_narrow {x : Float} (hx : IsDouble (exact x)) : IsDouble (exact32 (narrow x)) := by
  obtain ⟨hfinite, hzero, htwo⟩ := hx
  have hnearest : Rounds .binary32 (value (exact x)) (nearest .binary32 (exact x)) :=
    rounds_nearest hfinite
  have hmax : (2 : ℚ) ≤ maxFinite .binary32 := by
    have hexponent : maxExponent .binary32 = (104 : ℕ) := by decide
    rw [maxFinite, hexponent, zpow_natCast]
    norm_num [Format.mantissaBits]
  have hword : Rounds .binary32 (value (exact x)) (exact32 (narrow x)) :=
    hnearest.word wide32 (by rw [abs_of_nonneg hzero]; exact htwo.trans hmax)
  exact isDouble_of_rounds hword (by decide) (by decide) hzero htwo

end Animatic
