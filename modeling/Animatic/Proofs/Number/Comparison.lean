import Animatic.Proofs.Number.Sums

/-!
# Comparisons by value

Finite numbers compare as their values do, and rounding keeps the order of what is rounded. Hence
sums are ordered as their first terms are, and a quotient reaches one only where the dividend
reaches the divisor.

* `le_iff_value`, `lt_iff_value`: what decides a comparison.
* `Rounds.mono`: a larger value is not rounded to a smaller number.
* `add_le_add_of_nonneg`: the same added to two numbers.
* `one_le_div_iff`: no quotient below one is rounded up to it.
-/

namespace Animatic.Number

open Float.Model (Format UnpackedFloat)
open Float.Model.UnpackedFloat

variable {format : Format} {f g : UnpackedFloat}

/-! ## Opposites -/

theorem value_neg (f : UnpackedFloat) : value f.neg = -value f := by
  cases f with
  | finite s m e hm =>
    cases s with
    | negative => exact (neg_neg _).symm
    | positive => rfl
  | zero | infinity | notANumber => exact neg_zero.symm

theorem signedWeight_neg (format : Format) (f : UnpackedFloat) :
    signedWeight format f.neg = -signedWeight format f := by
  cases f with
  | finite s | zero s | infinity s =>
    cases s with
    | negative => exact (neg_neg _).symm
    | positive => rfl
  | notANumber => rfl

theorem Canonical.neg (h : Canonical format f) : Canonical format f.neg := by
  cases f <;> exact h

theorem isFinite_neg (f : UnpackedFloat) : f.neg.isFinite = f.isFinite := by
  cases f <;> rfl

/-! ## Values and weights -/

section

variable (cf : Canonical format f) (cg : Canonical format g) (hf : f.isFinite = true)
  (hg : g.isFinite = true)

include cf cg hf hg

/-- A larger value has a larger weight. -/
theorem signedWeight_mono (h : value f ≤ value g) :
    signedWeight format f ≤ signedWeight format g := by
  rcases le_or_gt 0 (value f) with hpos | hneg
  · exact signedWeight_le_of_value_le cf cg hf hg hpos h
  rcases le_or_gt 0 (value g) with hpos | hneg'
  · have hlow : 0 ≤ signedWeight format f.neg :=
      signedWeight_nonneg_of_value (by rwa [isFinite_neg]) (by rw [value_neg]; linarith)
    have hhigh : 0 ≤ signedWeight format g := signedWeight_nonneg_of_value hg hpos
    rw [signedWeight_neg] at hlow
    omega
  · have hflip : signedWeight format g.neg ≤ signedWeight format f.neg := by
      refine signedWeight_le_of_value_le cg.neg cf.neg (by rwa [isFinite_neg])
        (by rwa [isFinite_neg]) ?_ ?_
      · rw [value_neg]
        linarith
      · rw [value_neg, value_neg]
        linarith
    rw [signedWeight_neg, signedWeight_neg] at hflip
    omega

/-- The weight tells all but the sign of a zero. -/
theorem eq_of_signedWeight_eq (h : signedWeight format f = signedWeight format g) :
    f = g ∨ ∃ s t, f = .zero s ∧ g = .zero t := by
  have hp := two_pow_mantissaBits format
  cases f with
  | infinity s => cases hf
  | notANumber => cases hf
  | zero s =>
    cases g with
    | infinity t => cases hg
    | notANumber => cases hg
    | zero t => exact .inr ⟨s, t, rfl, rfl⟩
    | finite t m e hm =>
      exfalso
      cases s <;> cases t <;> simp only [signedWeight, weight, Sign.apply] at h <;> omega
  | finite s m e hm =>
    cases g with
    | infinity t => cases hg
    | notANumber => cases hg
    | zero t =>
      exfalso
      cases s <;> cases t <;> simp only [signedWeight, weight, Sign.apply] at h <;> omega
    | finite t m' e' hm' =>
      obtain ⟨hlt, hle, hfull⟩ := cf
      obtain ⟨hlt', hle', hfull'⟩ := cg
      obtain ⟨k, rfl⟩ : ∃ k : ℕ, e = format.minExponent + k :=
        ⟨(e - format.minExponent).toNat, by omega⟩
      obtain ⟨k', rfl⟩ : ∃ k : ℕ, e' = format.minExponent + k :=
        ⟨(e' - format.minExponent).toNat, by omega⟩
      refine .inl ?_
      simp only [signedWeight, weight, add_sub_cancel_left, Int.toNat_natCast] at h
      generalize 2 ^ format.mantissaBitsWithoutImplicit = P at *
      have hsize : m + k * P = m' + k' * P ∧ s = t := by
        cases s <;> cases t <;> simp only [Sign.apply] at h <;>
          first | exact ⟨by omega, rfl⟩ | (exfalso; omega)
      obtain ⟨hsize, rfl⟩ := hsize
      have hexponent : k = k' := by
        rcases Nat.lt_trichotomy k k' with hk | hk | hk
        · have hstep : (k + 1) * P ≤ k' * P := Nat.mul_le_mul_right P hk
          rw [Nat.add_mul, Nat.one_mul] at hstep
          omega
        · exact hk
        · have hstep : (k' + 1) * P ≤ k * P := Nat.mul_le_mul_right P hk
          rw [Nat.add_mul, Nat.one_mul] at hstep
          omega
      subst hexponent
      obtain rfl : m = m' := by omega
      rfl

theorem eq_of_value_eq (h : value f = value g) : f = g ∨ ∃ s t, f = .zero s ∧ g = .zero t :=
  eq_of_signedWeight_eq cf cg hf hg
    (le_antisymm (signedWeight_mono cf cg hf hg h.le) (signedWeight_mono cg cf hg hf h.ge))

theorem signedWeight_le_iff :
    signedWeight format f ≤ signedWeight format g ↔ value f ≤ value g := by
  refine ⟨fun h => ?_, signedWeight_mono cf cg hf hg⟩
  by_contra hlt
  have hback := signedWeight_mono cg cf hg hf (not_le.mp hlt).le
  rcases eq_of_signedWeight_eq cf cg hf hg (le_antisymm h hback) with rfl | ⟨s, t, rfl, rfl⟩
  · exact hlt le_rfl
  · exact hlt le_rfl

end

section

variable {x y : Float} (hx : (exact x).isFinite = true) (hy : (exact y).isFinite = true)

theorem isNaN_eq_false_of_isFinite {x : Float} (hx : (exact x).isFinite = true) :
    x.isNaN = false := isNaN_of_isFinite (f := exact x) hx

include hx hy

/-- Finite numbers compare as their values do. -/
theorem le_iff_value : x ≤ y ↔ value (exact x) ≤ value (exact y) := by
  have hnx := isNaN_eq_false_of_isFinite hx
  have hny := isNaN_eq_false_of_isFinite hy
  rw [le_iff_rank hnx hny, ← signedWeight_exact hnx, ← signedWeight_exact hny]
  exact signedWeight_le_iff (canonical_exact x) (canonical_exact y) hx hy

theorem lt_iff_value : x < y ↔ value (exact x) < value (exact y) := by
  have hnx := isNaN_eq_false_of_isFinite hx
  have hny := isNaN_eq_false_of_isFinite hy
  rw [lt_iff_rank hnx hny, ← not_le, ← le_iff_rank hny hnx, le_iff_value hy hx, not_le]

end

/-! ## Rounding keeps order -/

/-- A larger value is not rounded to a smaller number. -/
theorem Rounds.mono {x y : ℚ} (hf : Rounds format x f) (hg : Rounds format y g) (h : x < y) :
    value f ≤ value g := by
  by_contra hlt
  rw [not_le] at hlt
  have hrf := representable_value hf.canonical
  have hrg := representable_value hg.canonical
  -- neither number lies between the two values, so each value is nearer to the other's number
  have hbelow : value g < x := by
    by_contra hge
    exact absurd (hf.le_of_le _ hrg (not_lt.mp hge)) (not_le.mpr hlt)
  have habove : y < value f := by
    by_contra hge
    exact absurd (hg.le_of_ge _ hrf (not_lt.mp hge)) (not_le.mpr hlt)
  have hnearF := hf.nearest _ hrg
  have hnearG := hg.nearest _ hrf
  rw [abs_of_pos (by linarith), abs_of_neg (by linarith)] at hnearF
  rw [abs_of_neg (by linarith), abs_of_pos (by linarith)] at hnearG
  linarith

/-- What a word keeps of a number: the number, or that it is too large. -/
theorem unpack_pack_cases (wide : 1 < format.exponentBits) (hc : Canonical format f)
    (hf : f.isFinite = true) :
    |value f| ≤ maxFinite format ∧ unpack format (pack format f) = f ∨
      maxFinite format < value f ∧ unpack format (pack format f) = .infinity .positive ∨
      value f < -maxFinite format ∧ unpack format (pack format f) = .infinity .negative := by
  by_cases hrange : InRange format f
  · exact .inl ⟨abs_value_le hc hrange, unpack_pack hc hrange⟩
  · have hbig : maxFinite format < |value f| :=
      not_le.mp fun h => hrange (inRange_of_abs_le wide hc h)
    refine .inr ?_
    cases f with
    | finite s m e hm =>
      have hword := @unpack_pack_overflow format s m e hm (not_le.mp hrange)
      have hsize : (0 : ℚ) ≤ m * 2 ^ e := by positivity
      rw [value] at hbig ⊢
      cases s with
      | positive =>
        rw [signed, abs_of_nonneg hsize] at hbig
        exact .inl ⟨hbig, hword⟩
      | negative =>
        rw [signed, abs_neg, abs_of_nonneg hsize] at hbig
        exact .inr ⟨neg_lt_neg hbig, hword⟩
    | zero | infinity | notANumber => exact absurd trivial hrange

theorem InRange.neg (h : InRange format f) : InRange format f.neg := by
  cases f <;> exact h

theorem maxFinite_nonneg (format : Format) : 0 ≤ maxFinite format :=
  mul_nonneg (sub_nonneg.mpr (one_le_pow₀ (by norm_num))) (by positivity)

/-- Words keep the order of values. -/
theorem signedWeight_unpack_pack_mono (wide : 1 < format.exponentBits) (cf : Canonical format f)
    (cg : Canonical format g) (hf : f.isFinite = true) (hg : g.isFinite = true)
    (h : value f ≤ value g) :
    signedWeight format (unpack format (pack format f)) ≤
      signedWeight format (unpack format (pack format g)) := by
  have htop : 0 ≤ signedWeight format (.infinity .positive) := Int.natCast_nonneg _
  have hbottom : signedWeight format (.infinity .negative) =
    -signedWeight format (.infinity .positive) := rfl
  have hmax := maxFinite_nonneg format
  obtain ⟨hkeptF, hwordF⟩ | ⟨hbigF, hwordF⟩ | ⟨hbigF, hwordF⟩ := unpack_pack_cases wide cf hf <;>
    obtain ⟨hkeptG, hwordG⟩ | ⟨hbigG, hwordG⟩ | ⟨hbigG, hwordG⟩ := unpack_pack_cases wide cg hg <;>
    rw [hwordF, hwordG]
  · exact signedWeight_mono cf cg hf hg h
  · exact signedWeight_le_infinity cf (inRange_of_abs_le wide cf hkeptF) hf
  · linarith [neg_le_of_abs_le hkeptF]
  · linarith [le_of_abs_le hkeptG]
  · linarith
  · have hlow := signedWeight_le_infinity cg.neg (inRange_of_abs_le wide cg hkeptG).neg
      (by rwa [isFinite_neg])
    rw [signedWeight_neg] at hlow
    omega
  · omega

/-! ## Sums -/

/-- A number that is not infinite downwards. -/
theorem finite_or_infinite {x : Float} (hx : x.isNaN = false)
    (hdown : exact x ≠ .infinity .negative) :
    exact x = .infinity .positive ∨ (exact x).isFinite = true := by
  rw [← isNaN_exact] at hx
  cases h : exact x with
  | infinity s =>
    cases s with
    | positive => exact .inl rfl
    | negative => exact absurd h hdown
  | notANumber => rw [h] at hx; cases hx
  | zero | finite => exact .inr rfl

theorem inRange_exact (x : Float) : InRange .binary64 (exact x) := (canonical_unpack wide64 _).2

theorem unpack_pack_exact (x : Float) : unpack .binary64 (pack .binary64 (exact x)) = exact x :=
  unpack_pack (canonical_exact x) (inRange_exact x)

theorem signedWeight_exact_le_infinity {x : Float} (hx : x.isNaN = false) :
    signedWeight .binary64 (exact x) ≤ signedWeight .binary64 (.infinity .positive) := by
  by_cases hfinite : (exact x).isFinite = true
  · exact signedWeight_le_infinity (canonical_exact x) (inRange_exact x) hfinite
  · rw [← isNaN_exact] at hx
    cases h : exact x with
    | infinity s => cases s <;> decide
    | notANumber => rw [h] at hx; cases hx
    | zero | finite => rw [h] at hfinite; exact absurd rfl hfinite

/-- Nothing finite is above what is infinite upwards. -/
theorem isFinite_of_le {x y : Float} (hx : exact x ≠ .infinity .negative) (hxy : x ≤ y)
    (hy : (exact y).isFinite = true) : (exact x).isFinite = true := by
  obtain ⟨hnx, hny⟩ := numbers_of_le hxy
  refine (finite_or_infinite hnx hx).resolve_left fun hinfinite => ?_
  have hcanonical := canonical_exact y
  have hrange := inRange_exact y
  have htop : 0 < signedWeight .binary64 (.infinity .positive) := by decide
  rw [le_iff_rank hnx hny, ← signedWeight_exact hnx, ← signedWeight_exact hny, hinfinite] at hxy
  cases h : exact y with
  | infinity s => rw [h] at hy; cases hy
  | notANumber => rw [h] at hy; cases hy
  | zero s =>
    rw [h] at hxy
    cases s <;> exact absurd htop (not_lt.mpr hxy)
  | finite s m e hm =>
    rw [h] at hxy hcanonical hrange
    have hlt := (weight_finite_lt (t := .positive) hcanonical hrange).2
    cases s <;> simp only [signedWeight, Sign.apply] at hxy htop <;> omega

private theorem value_add_congr {h : UnpackedFloat} (cf : Canonical format f)
    (cg : Canonical format g) (hf : f.isFinite = true) (hg : g.isFinite = true)
    (heq : value f = value g) : value (add format f h) = value (add format g h) := by
  obtain rfl | ⟨s, t, rfl, rfl⟩ := eq_of_value_eq cf cg hf hg heq
  · rfl
  · cases h with
    | zero u => rw [add, add]; split <;> split <;> rfl
    | infinity | finite | notANumber => rfl

/-- Adding the same to two numbers keeps their order. -/
theorem add_le_add_of_nonneg {x y z : Float} (hx : exact x ≠ .infinity .negative)
    (hy : exact y ≠ .infinity .negative) (hxy : x ≤ y) (hz : 0 ≤ z) : x + z ≤ y + z := by
  obtain ⟨hnx, hny⟩ := numbers_of_le hxy
  have hsumX := isNaN_add_of_nonneg hnx hx hz
  have hsumY := isNaN_add_of_nonneg hny hy hz
  have hinfinite : unpack .binary64 (pack .binary64 (.infinity .positive)) =
      .infinity .positive := unpack_pack trivial trivial
  rw [le_iff_rank hsumX hsumY, ← signedWeight_exact hsumX, ← signedWeight_exact hsumY]
  rcases finite_or_infinite hny hy with hyInfinite | hyFinite
  · have hsum : exact (y + z) = .infinity .positive := by
      rw [exact_add, hyInfinite, add_infinity_left ((exact_of_nonneg hz).imp_right And.left),
        hinfinite]
    rw [hsum]
    exact signedWeight_exact_le_infinity hsumX
  · have hxFinite := isFinite_of_le hx hxy hyFinite
    rcases exact_of_nonneg hz with hzInfinite | ⟨hzFinite, -⟩
    · rw [exact_add, exact_add, hzInfinite, add_infinity_right hxFinite,
        add_infinity_right hyFinite]
    · have hroundsX := rounds_add hxFinite hzFinite (canonical_exact x) (canonical_exact z)
      have hroundsY := rounds_add hyFinite hzFinite (canonical_exact y) (canonical_exact z)
      refine signedWeight_unpack_pack_mono wide64 hroundsX.canonical hroundsY.canonical
        hroundsX.isFinite hroundsY.isFinite ?_
      rcases ((le_iff_value hxFinite hyFinite).mp hxy).lt_or_eq with hlt | heq
      · exact hroundsX.mono hroundsY (add_lt_add_left hlt _)
      · exact (value_add_congr (canonical_exact x) (canonical_exact y) hxFinite hyFinite heq).le

/-- No sum falls below its first term so far that it becomes infinite downwards. -/
theorem add_ne_negative_infinity {x y : Float} (hx : x.isNaN = false)
    (hdown : exact x ≠ .infinity .negative) (hy : 0 ≤ y) :
    exact (x + y) ≠ .infinity .negative := by
  have hinfinite : unpack .binary64 (pack .binary64 (.infinity .positive)) =
      .infinity .positive := unpack_pack trivial trivial
  rw [exact_add]
  rcases finite_or_infinite hx hdown with hx | hfx
  · rw [hx, add_infinity_left ((exact_of_nonneg hy).imp_right And.left), hinfinite]
    nofun
  rcases exact_of_nonneg hy with hy | ⟨hfy, hvy⟩
  · rw [hy, add_infinity_right hfx, hinfinite]
    nofun
  · have hrounds := rounds_add hfx hfy (canonical_exact x) (canonical_exact y)
    have hgrown := hrounds.le_of_ge _ (representable_value (canonical_exact x))
      (le_add_of_nonneg_right hvy)
    have hleast := neg_le_of_abs_le (abs_value_le (canonical_exact x) (inRange_exact x))
    obtain ⟨-, h⟩ | ⟨-, h⟩ | ⟨hbig, -⟩ := unpack_pack_cases wide64 hrounds.canonical hrounds.isFinite
    · rw [h]
      intro hsum
      have hfinite := hrounds.isFinite
      rw [hsum] at hfinite
      cases hfinite
    · rw [h]
      nofun
    · linarith

/-! ## Quotients -/

/-- A smaller representable value is smaller by a unit of the last place, or by half of one below a
power of two. -/
theorem Representable.le_of_lt {v : ℚ} (hv : Representable format v) (hc : Canonical format g)
    (hpos : 0 < value g) (h : v < value g) :
    v ≤ value g * (1 - 1 / 2 ^ format.mantissaBits) := by
  obtain ⟨m, e, hm, rfl⟩ : ∃ m e hm, g = .finite .positive m e hm := by
    cases g with
    | finite s m e hm =>
      obtain rfl := positive_of_value_nonneg hpos.le
      exact ⟨m, e, hm, rfl⟩
    | zero | infinity | notANumber => exact absurd hpos (lt_irrefl 0)
  rw [value, signed] at h ⊢
  obtain ⟨hlt, hle, hfull⟩ := hc
  have hpos : (0 : ℚ) < 2 ^ e := by positivity
  have hp : (2 : ℚ) ^ format.mantissaBits = 2 * 2 ^ format.mantissaBitsWithoutImplicit := by
    exact_mod_cast two_pow_mantissaBits format
  have hone : (1 : ℚ) ≤ 2 ^ format.mantissaBitsWithoutImplicit := one_le_pow₀ (by norm_num)
  have hm' : (m : ℚ) ≤ 2 ^ format.mantissaBits := by exact_mod_cast hlt.le
  have hshrunk : m * 2 ^ e * (1 - 1 / 2 ^ format.mantissaBits) =
      ((m : ℚ) - m / 2 ^ format.mantissaBits) * 2 ^ e := by ring
  rw [hshrunk]
  obtain ⟨u, rfl, hu⟩ := hv.units e
  have hum : u < m := lt_of_mul_lt_mul_right h hpos.le
  refine mul_le_mul_of_nonneg_right ?_ hpos.le
  have hpart : (m : ℚ) / 2 ^ format.mantissaBits ≤ 1 := (div_le_one (by positivity)).mpr hm'
  have hstep {k : ℤ} {n : ℕ} (hk : (k : ℚ) < n) : (k : ℚ) ≤ n - 1 := by
    have hk' : k < n := by exact_mod_cast hk
    have hle : k ≤ n - 1 := by omega
    exact_mod_cast hle
  obtain ⟨k, rfl⟩ | ⟨hmin, hu⟩ := hu
  · linarith [hstep hum]
  rcases (hfull.resolve_right hmin).lt_or_eq with hmore | heq
  · have hm'' : (2 : ℚ) ^ format.mantissaBitsWithoutImplicit + 1 ≤ m := by exact_mod_cast hmore
    linarith
  · -- below a power of two the units are half as large
    have hmPower : (m : ℚ) = 2 ^ format.mantissaBitsWithoutImplicit := by exact_mod_cast heq.symm
    have hhalf : (m : ℚ) / 2 ^ format.mantissaBits = 1 / 2 := by
      rw [hp, ← hmPower]
      field_simp
    obtain ⟨w, hw, hwhole⟩ := hv.units (e - 1)
    have hwu : w = 2 * u := by
      have hpos' : (0 : ℚ) < 2 ^ (e - 1) := by positivity
      rw [zpow_sub_one₀ (by norm_num)] at hw hpos'
      field_simp at hw
      linarith
    obtain ⟨k, rfl⟩ | ⟨-, hsmall⟩ := hwhole
    · have hk := hstep (n := 2 * m) (by push_cast; linarith)
      push_cast at hk
      linarith
    · linarith

variable {x y : Float}

theorem exact_div (x y : Float) :
    exact (x / y) = unpack .binary64 (pack .binary64 (div .binary64 (exact x) (exact y))) := rfl

theorem value_one : (exact 1).isFinite = true ∧ value (exact 1) = 1 := by
  have hone : exact 1 = .finite .positive (2 ^ 52) (-52) (by decide) := by rfl
  rw [hone, value, signed]
  exact ⟨rfl, by norm_num⟩

/-- The largest number below one. -/
private def belowOne : Float := Float.ofBits 0x3FEFFFFFFFFFFFFF

private theorem value_belowOne :
    (exact belowOne).isFinite = true ∧ value (exact belowOne) = 1 - 1 / 2 ^ 53 := by
  have hbelow : exact belowOne = .finite .positive (2 ^ 53 - 1) (-53) (by decide) := by rfl
  rw [hbelow, value, signed]
  exact ⟨rfl, by norm_num⟩

private theorem exact_div_of_infinite (hx : exact x = .infinity .positive)
    (hpos : 0 < value (exact y)) : exact (x / y) = .infinity .positive := by
  rw [exact_div, hx]
  cases h : exact y with
  | finite s m e hm =>
    rw [h] at hpos
    obtain rfl := positive_of_value_nonneg hpos.le
    exact unpack_pack trivial trivial
  | zero | infinity | notANumber => rw [h] at hpos; exact absurd hpos (lt_irrefl 0)

private theorem one_le_div_iff_of_isFinite (hx : (exact x).isFinite = true)
    (hy : (exact y).isFinite = true) (hpos : 0 < value (exact y)) (hnumber : (x / y).isNaN = false) :
    1 ≤ x / y ↔ y ≤ x := by
  have hrounds : Rounds .binary64 _ _ := rounds_div hx hy hpos.ne'
  have hone : (1 : Float).isNaN = false := by decide
  rw [le_iff_value hy hx, le_iff_rank hone hnumber, ← signedWeight_exact hone,
    ← signedWeight_exact hnumber, exact_div]
  rcases le_or_gt (value (exact y)) (value (exact x)) with hle | hlt
  · refine iff_of_true ?_ hle
    rw [← unpack_pack_exact 1]
    refine signedWeight_unpack_pack_mono wide64 (canonical_exact 1) hrounds.canonical
      value_one.1 hrounds.isFinite ?_
    refine hrounds.le_of_ge _ (representable_value (canonical_exact 1)) ?_
    rw [value_one.2]
    exact (one_le_div hpos).mpr hle
  · refine iff_of_false (not_le.mpr ?_) (not_le.mpr hlt)
    have hbelow : signedWeight .binary64 (exact belowOne) < signedWeight .binary64 (exact 1) := by
      decide
    refine lt_of_le_of_lt ?_ hbelow
    rw [← unpack_pack_exact belowOne]
    refine signedWeight_unpack_pack_mono wide64 hrounds.canonical (canonical_exact belowOne)
      hrounds.isFinite value_belowOne.1 ?_
    refine hrounds.le_of_le _ (representable_value (canonical_exact belowOne)) ?_
    rw [value_belowOne.2, div_le_iff₀ hpos, mul_comm]
    exact (representable_value (canonical_exact x)).le_of_lt (canonical_exact y) hpos hlt

section

variable (hx : x.isNaN = false) (hdown : exact x ≠ .infinity .negative)
  (hy : (exact y).isFinite = true) (hpos : 0 < value (exact y))

include hx hdown hy hpos

theorem isNaN_div_of_pos : (x / y).isNaN = false := by
  rw [← isNaN_exact]
  rcases finite_or_infinite hx hdown with hinfinite | hfinite
  · rw [exact_div_of_infinite hinfinite hpos]
    rfl
  · have hrounds : Rounds .binary64 _ _ := rounds_div hfinite hy hpos.ne'
    rw [exact_div, isNaN_unpack_pack]
    cases h : div .binary64 (exact x) (exact y) with
    | notANumber => exact absurd hrounds.isFinite (by rw [h]; nofun)
    | zero | infinity | finite => rfl

/-- A quotient by a positive number reaches one exactly where the dividend reaches the divisor. -/
theorem one_le_div_iff : 1 ≤ x / y ↔ y ≤ x := by
  have hnumber := isNaN_div_of_pos hx hdown hy hpos
  rcases finite_or_infinite hx hdown with hinfinite | hfinite
  · have hny := isNaN_eq_false_of_isFinite hy
    have hone : (1 : Float).isNaN = false := by decide
    rw [le_iff_rank hone hnumber, le_iff_rank hny hx, ← signedWeight_exact hone,
      ← signedWeight_exact hnumber, ← signedWeight_exact hny, ← signedWeight_exact hx,
      exact_div_of_infinite hinfinite hpos, hinfinite]
    exact iff_of_true (signedWeight_exact_le_infinity hone) (signedWeight_exact_le_infinity hny)
  · exact one_le_div_iff_of_isFinite hfinite hy hpos hnumber

end

/-! ## The end of a blend -/

theorem exact_mul (x y : Float) :
    exact (x * y) = unpack .binary64 (pack .binary64 (mul .binary64 (exact x) (exact y))) := rfl

private theorem exact_mul_zero (hx : (exact x).isFinite = true) :
    ∃ s, exact (x * 0) = .zero s := by
  have hzero : exact 0 = .zero .positive := by rfl
  have hkept (s : Sign) : unpack .binary64 (pack .binary64 (.zero s)) = .zero s :=
    unpack_pack trivial trivial
  rw [exact_mul, hzero]
  cases h : exact x with
  | infinity s => rw [h] at hx; cases hx
  | notANumber => rw [h] at hx; cases hx
  | zero s =>
    rw [mul, hkept]
    exact ⟨_, rfl⟩
  | finite s m e hm =>
    rw [mul, hkept]
    exact ⟨_, rfl⟩

private theorem exact_mul_one (hx : (exact x).isFinite = true) : exact (x * 1) = exact x := by
  have hrounds := rounds_mul hx value_one.1 (canonical_exact x) (canonical_exact 1)
  have hvalue : value (mul .binary64 (exact x) (exact 1)) = value (exact x) := by
    rw [value_one.2, mul_one] at hrounds
    exact hrounds.eq (representable_value (canonical_exact x))
  suffices hmul : mul .binary64 (exact x) (exact 1) = exact x by
    rw [exact_mul, hmul, unpack_pack_exact]
  rcases eq_of_value_eq hrounds.canonical (canonical_exact x) hrounds.isFinite hx hvalue with
    heq | ⟨s, t, -, hzero⟩
  · exact heq
  · have hone : exact 1 = .finite .positive (2 ^ 52) (-52) (by decide) := by rfl
    rw [hzero, hone]
    cases t <;> rfl

/-- A blend that has come to its end is there, but that negative zero may be reached as the other
zero. -/
theorem exact_blend_one (hx : (exact x).isFinite = true) (hy : (exact y).isFinite = true) :
    exact (x * (1 - 1) + y * 1) = exact y ∨
      exact y = .zero .negative ∧ ∃ s, exact (x * (1 - 1) + y * 1) = .zero s := by
  have hnone : (1 : Float) - 1 = 0 := by decide
  obtain ⟨s, hs⟩ := exact_mul_zero hx
  rw [hnone, exact_add, hs, exact_mul_one hy]
  cases h : exact y with
  | infinity t => rw [h] at hy; cases hy
  | notANumber => rw [h] at hy; cases hy
  | finite t m e hm =>
    have hsum : add .binary64 (.zero s) (.finite t m e hm) = .finite t m e hm := rfl
    refine .inl ?_
    rw [hsum, ← h, unpack_pack_exact]
  | zero t =>
    cases s <;> cases t
    · exact .inl (unpack_pack trivial trivial)
    · exact .inl (unpack_pack trivial trivial)
    · exact .inr ⟨rfl, .positive, unpack_pack trivial trivial⟩
    · exact .inl (unpack_pack trivial trivial)

end Animatic.Number
