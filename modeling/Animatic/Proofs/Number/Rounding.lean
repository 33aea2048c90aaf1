import Animatic.Proofs.Number.Canonical

/-!
# Rounding

What is rounded is an exact rational value. A number with two residual bits says where such a value
stands; shifting keeps that, and rounding takes the nearer whole number.

* `value`, `Representable`: the values of finite numbers, and those that a format has.
* `Rounds`: what it means for a number to be a rounded value. Rounding stays on the same side of
  every representable value, so it keeps order and fixes what is representable.
* `rounds_roundWithAccuracy`: rounding gives such a number.
-/

namespace Animatic.Number

open Float.Model (Format UnpackedFloat totalExponent)
open Float.Model.UnpackedFloat

/-! ## Values -/

/-- A number with a sign. -/
def signed : Sign → ℚ → ℚ
  | .negative, x => -x
  | .positive, x => x

/-- The value of a finite number; the others have none and count as zero. -/
def value : UnpackedFloat → ℚ
  | .finite s m e _ => signed s (m * 2 ^ e)
  | .zero _ | .infinity _ | .notANumber => 0

@[simp]
theorem value_zero (s : Sign) : value (.zero s) = 0 := rfl

theorem value_pos {m : ℕ} (hm : 0 < m) (e : ℤ) : 0 < value (.finite .positive m e hm) :=
  mul_pos (by exact_mod_cast hm) (by positivity)

/-- Whether a format with no largest exponent has a value. -/
def Representable (format : Format) (v : ℚ) : Prop :=
  ∃ k e : ℤ, k.natAbs ≤ 2 ^ format.mantissaBits ∧ format.minExponent ≤ e ∧ v = k * 2 ^ e

theorem Representable.neg {format : Format} {v : ℚ} (h : Representable format v) :
    Representable format (-v) := by
  obtain ⟨k, e, hk, he, rfl⟩ := h
  exact ⟨-k, e, by rwa [Int.natAbs_neg], he, by rw [Int.cast_neg, neg_mul]⟩

theorem Representable.two_pow_mul {format : Format} {v : ℚ}
    (h : Representable format v) (n : ℕ) : Representable format (2 ^ n * v) := by
  obtain ⟨k, e, hk, he, rfl⟩ := h
  refine ⟨k, e + n, hk, by omega, ?_⟩
  rw [zpow_add₀ (by norm_num), zpow_natCast]
  ring

theorem abs_signed (s : Sign) (x : ℚ) : |signed s x| = |x| := by
  cases s with
  | negative => exact abs_neg x
  | positive => rfl

/-! ## Residual bits -/

/-- Where a number stands from which a mantissa with two residual bits was cut. -/
def CutFrom (em : ExtendedMantissa) (y : ℚ) : Prop :=
  match em.roundBit, em.stickyBit with
  | false, false => y = em.mantissa
  | false, true => em.mantissa < y ∧ y < em.mantissa + 1 / 2
  | true, false => y = em.mantissa + 1 / 2
  | true, true => em.mantissa + 1 / 2 < y ∧ y < em.mantissa + 1

variable {em : ExtendedMantissa} {y : ℚ}

theorem CutFrom.bounds (h : CutFrom em y) : em.mantissa ≤ y ∧ y < em.mantissa + 1 := by
  obtain ⟨m, r, s⟩ := em
  cases r <;> cases s <;> simp only [CutFrom] at h ⊢
  · exact ⟨by linarith, by linarith⟩
  · exact ⟨by linarith, by linarith⟩
  · exact ⟨by linarith, by linarith⟩
  · exact ⟨by linarith, by linarith⟩

theorem CutFrom.shiftRightOne (h : CutFrom em y) : CutFrom em.shiftRightOne (y / 2) := by
  obtain ⟨m, r, s⟩ := em
  have hm : (2 : ℚ) * (m / 2 : ℕ) + (m % 2 : ℕ) = m := by exact_mod_cast Nat.div_add_mod m 2
  have hodd : ((1 : ℕ) != 0) = true := rfl
  rcases Nat.mod_two_eq_zero_or_one m with hparity | hparity <;> rw [hparity] at hm <;>
    cases r <;> cases s <;>
      simp only [CutFrom, ExtendedMantissa.shiftRightOne, hparity, bne_self_eq_false, hodd,
        Bool.or_true, Bool.or_false] at h ⊢ <;> push_cast at hm
  all_goals first | linarith | exact ⟨by linarith, by linarith⟩

theorem CutFrom.shiftRight (h : CutFrom em y) (n : ℕ) : CutFrom (em >>> n) (y / 2 ^ n) := by
  change CutFrom (n.repeat ExtendedMantissa.shiftRightOne em) _
  induction n with
  | zero => simpa [Nat.repeat] using h
  | succ n ih =>
    rw [Nat.repeat, pow_succ, ← div_div]
    exact ih.shiftRightOne

/-- A whole number next to `y`, on the same side of every other one. -/
structure NextTo (y : ℚ) (r : ℕ) : Prop where
  error : |(r : ℚ) - y| ≤ 1 / 2
  below : ∀ k : ℤ, (k : ℚ) ≤ y → k ≤ r
  above : ∀ k : ℤ, y ≤ k → (r : ℤ) ≤ k

private theorem nextTo_down {m : ℕ} (hle : m ≤ y) (hhalf : y ≤ m + 1 / 2) : NextTo y m where
  error := by
    rw [abs_le]
    exact ⟨by linarith, by linarith⟩
  below k hk := by
    have hlt : (k : ℚ) < ((m + 1 : ℤ) : ℚ) := by push_cast; linarith
    exact Int.lt_add_one_iff.mp (Int.cast_lt.mp hlt)
  above k hk := by
    have hmk : ((m : ℤ) : ℚ) ≤ k := by push_cast; linarith
    exact Int.cast_le.mp hmk

private theorem nextTo_up {m : ℕ} (hhalf : m + 1 / 2 ≤ y) (hlt : y < m + 1) :
    NextTo y (m + 1) where
  error := by
    rw [abs_le]
    push_cast
    exact ⟨by linarith, by linarith⟩
  below k hk := by
    have hkm : (k : ℚ) ≤ ((m + 1 : ℤ) : ℚ) := by push_cast; linarith
    exact_mod_cast Int.cast_le.mp hkm
  above k hk := by
    have hmk : ((m : ℤ) : ℚ) < k := by push_cast; linarith
    exact_mod_cast Int.cast_lt.mp hmk

theorem CutFrom.roundedMantissa (h : CutFrom em y) : NextTo y em.roundedMantissa := by
  obtain ⟨m, r, s⟩ := em
  cases r <;> cases s <;> simp only [CutFrom] at h
  · change NextTo y m
    exact nextTo_down (by linarith) (by linarith)
  · change NextTo y m
    exact nextTo_down (by linarith) (by linarith)
  · -- a half is next to both neighbours
    change NextTo y (m + m % 2)
    rcases Nat.mod_two_eq_zero_or_one m with hparity | hparity <;> rw [hparity]
    · rw [Nat.add_zero]
      exact nextTo_down (by linarith) (by linarith)
    · exact nextTo_up (by linarith) (by linarith)
  · change NextTo y (m + 1)
    exact nextTo_up (by linarith) (by linarith)

/-- How a mantissa with an accuracy stands to what it was cut from. -/
theorem cutFrom_exact (m : ℕ) : CutFrom (.ofMantissaAndAccuracy m .exact) m := rfl

/-! ## Order -/

variable {format : Format} {r : ℕ} {e : ℤ}

/-- In units of the last place, a representable value is whole, or no larger than the least mantissa
with all digits. -/
theorem Representable.units {v : ℚ} (hv : Representable format v) (e : ℤ) :
    ∃ u : ℚ, v = u * 2 ^ e ∧ ((∃ k : ℤ, u = k) ∨
      e ≠ format.minExponent ∧ u ≤ 2 ^ format.mantissaBitsWithoutImplicit) := by
  obtain ⟨k, j, hk, hj, rfl⟩ := hv
  refine ⟨k * 2 ^ (j - e), ?_, ?_⟩
  · rw [mul_assoc, ← zpow_add₀ (by norm_num), sub_add_cancel]
  rcases lt_or_ge j e with hlt | hle
  · -- a value with a smaller unit, and so a smaller value
    refine .inr ⟨by omega, ?_⟩
    have hk' : (k : ℚ) ≤ 2 ^ format.mantissaBits := by
      have hcast : k ≤ ((2 ^ format.mantissaBits : ℕ) : ℤ) :=
        Int.le_natAbs.trans (Int.ofNat_le.mpr hk)
      exact_mod_cast hcast
    have hstep : (2 : ℚ) ^ (j - e) ≤ 2 ^ (-1 : ℤ) :=
      zpow_le_zpow_right₀ (by norm_num) (by omega)
    calc (k : ℚ) * 2 ^ (j - e) ≤ 2 ^ format.mantissaBits * 2 ^ (-1 : ℤ) :=
        mul_le_mul hk' hstep (by positivity) (by positivity)
      _ = 2 ^ format.mantissaBitsWithoutImplicit := by
        rw [Format.mantissaBits, pow_add, zpow_neg_one]
        ring
  · -- a multiple of the unit
    obtain ⟨n, hn⟩ := Int.eq_ofNat_of_zero_le (Int.sub_nonneg_of_le hle)
    refine .inl ⟨k * 2 ^ n, ?_⟩
    rw [hn]
    push_cast
    rw [zpow_natCast]

/-- A whole number with enough digits stands on the same side of representable values as what it is
next to. -/
private theorem NextTo.representable (h : NextTo y r)
    (hfull : e = format.minExponent ∨ (2 : ℚ) ^ format.mantissaBitsWithoutImplicit ≤ y) {v : ℚ}
    (hv : Representable format v) :
    (y * 2 ^ e ≤ v → (r : ℚ) * 2 ^ e ≤ v) ∧ (v ≤ y * 2 ^ e → v ≤ (r : ℚ) * 2 ^ e) := by
  have hpos : (0 : ℚ) < 2 ^ e := by positivity
  obtain ⟨u, rfl, ⟨k, rfl⟩ | ⟨hmin, hu⟩⟩ := hv.units e <;>
    rw [mul_le_mul_iff_left₀ hpos, mul_le_mul_iff_left₀ hpos, mul_le_mul_iff_left₀ hpos,
      mul_le_mul_iff_left₀ hpos]
  · exact ⟨fun hy => by exact_mod_cast h.above k hy, fun hy => by exact_mod_cast h.below k hy⟩
  · have htop := hfull.resolve_left hmin
    have hr : (2 : ℚ) ^ format.mantissaBitsWithoutImplicit ≤ r := by
      exact_mod_cast h.below (2 ^ format.mantissaBitsWithoutImplicit) (by exact_mod_cast htop)
    refine ⟨fun hy => ?_, fun _ => hu.trans hr⟩
    have hr' : (r : ℚ) ≤ 2 ^ format.mantissaBitsWithoutImplicit := by
      exact_mod_cast h.above (2 ^ format.mantissaBitsWithoutImplicit)
        (by exact_mod_cast hy.trans hu)
    exact hr'.trans (htop.trans hy)

/-- No whole number is nearer. -/
theorem NextTo.nearest_int (h : NextTo y r) (k : ℤ) : |(r : ℚ) - y| ≤ |(k : ℚ) - y| := by
  rcases eq_or_ne k r with rfl | hne
  · exact le_rfl
  · have hone : (1 : ℚ) ≤ |(k : ℚ) - r| := by
      exact_mod_cast Int.one_le_abs (sub_ne_zero.mpr hne)
    have htriangle := abs_sub_le (k : ℚ) y r
    rw [abs_sub_comm y] at htriangle
    linarith [h.error]

/-- No representable value is nearer. -/
private theorem NextTo.nearest (h : NextTo y r)
    (hfull : e = format.minExponent ∨ (2 : ℚ) ^ format.mantissaBitsWithoutImplicit ≤ y) {v : ℚ}
    (hv : Representable format v) : |(r : ℚ) * 2 ^ e - y * 2 ^ e| ≤ |v - y * 2 ^ e| := by
  have hpos : (0 : ℚ) < 2 ^ e := by positivity
  obtain ⟨u, rfl, hu⟩ := hv.units e
  rw [← sub_mul, ← sub_mul, abs_mul, abs_mul]
  refine mul_le_mul_of_nonneg_right ?_ (abs_nonneg _)
  rcases hu with ⟨k, rfl⟩ | ⟨hmin, hu⟩
  · exact h.nearest_int k
  · have htop := hfull.resolve_left hmin
    have hpower := h.nearest_int (2 ^ format.mantissaBitsWithoutImplicit)
    push_cast at hpower
    rw [abs_of_nonpos (sub_nonpos.mpr htop)] at hpower
    rw [abs_of_nonpos (sub_nonpos.mpr (hu.trans htop))]
    linarith

/-! ## Rounded values -/

/-- A finite number that a value rounds to: on the same side of every representable value, no farther
away than any of them, and no farther away than half a unit of the last place. -/
structure Rounds (format : Format) (x : ℚ) (f : UnpackedFloat) : Prop where
  isFinite : f.isFinite = true
  canonical : Canonical format f
  le_of_le : ∀ v, Representable format v → x ≤ v → value f ≤ v
  le_of_ge : ∀ v, Representable format v → v ≤ x → v ≤ value f
  nearest : ∀ v, Representable format v → |value f - x| ≤ |v - x|
  error : |value f - x| ≤
    max (|x| * 2 ^ (-(format.mantissaBits : ℤ))) (2 ^ (format.minExponent - 1))

/-- What is representable is kept. -/
theorem Rounds.eq {x : ℚ} {f : UnpackedFloat} (h : Rounds format x f)
    (hx : Representable format x) : value f = x :=
  le_antisymm (h.le_of_le x hx le_rfl) (h.le_of_ge x hx le_rfl)

theorem representable_zero (format : Format) : Representable format 0 :=
  ⟨0, format.minExponent, Nat.zero_le _, le_rfl, by rw [Int.cast_zero, zero_mul]⟩

theorem representable_value {f : UnpackedFloat} (hc : Canonical format f) :
    Representable format (value f) := by
  cases f with
  | finite s m e hm =>
    obtain ⟨hlt, hle, -⟩ := hc
    refine ⟨s.apply m, e, ?_, hle, ?_⟩
    · cases s <;> (simp only [Sign.apply, Int.natAbs_neg, Int.natAbs_natCast]; omega)
    · cases s <;> simp [value, signed, Sign.apply]
  | zero s => exact representable_zero format
  | infinity s => exact representable_zero format
  | notANumber => exact representable_zero format

theorem rounds_zero (format : Format) (s : Sign) : Rounds format 0 (.zero s) where
  isFinite := rfl
  canonical := trivial
  le_of_le _ _ h := h
  le_of_ge _ _ h := h
  nearest v _ := by
    rw [value_zero, sub_self, abs_zero]
    exact abs_nonneg _
  error := by
    have hpos : (0 : ℚ) ≤ 2 ^ (format.minExponent - 1) := by positivity
    rw [value_zero, sub_self, abs_zero]
    exact le_max_of_le_right hpos

/-- A canonical number of the size that a value is next to is one that the value rounds to. -/
private theorem NextTo.rounds (h : NextTo y r) (hy : 0 ≤ y)
    (hfull : e = format.minExponent ∨ (2 : ℚ) ^ format.mantissaBitsWithoutImplicit ≤ y) (s : Sign)
    {f : UnpackedFloat} (hf : f.isFinite = true) (hc : Canonical format f)
    (hvalue : value f = signed s (r * 2 ^ e)) : Rounds format (signed s (y * 2 ^ e)) f where
  isFinite := hf
  canonical := hc
  le_of_le v hv hle := by
    rw [hvalue]
    cases s with
    | positive => exact (h.representable hfull hv).1 hle
    | negative => exact neg_le.mpr ((h.representable hfull hv.neg).2 (neg_le.mp hle))
  le_of_ge v hv hle := by
    rw [hvalue]
    cases s with
    | positive => exact (h.representable hfull hv).2 hle
    | negative => exact le_neg.mpr ((h.representable hfull hv.neg).1 (le_neg.mp hle))
  nearest v hv := by
    rw [hvalue]
    cases s with
    | positive => exact h.nearest hfull hv
    | negative =>
      have hflip : |-v - y * 2 ^ e| = |v - -(y * 2 ^ e)| := by
        rw [← neg_add', abs_neg, sub_neg_eq_add]
      rw [signed, signed, neg_sub_neg, abs_sub_comm, ← hflip]
      exact h.nearest hfull hv.neg
  error := by
    have hpos : (0 : ℚ) < 2 ^ e := by positivity
    have hdiff : |value f - signed s (y * 2 ^ e)| = |(r : ℚ) - y| * 2 ^ e := by
      rw [hvalue, ← abs_of_pos hpos, ← abs_mul, abs_of_pos hpos, sub_mul]
      cases s with
      | positive => rfl
      | negative => rw [signed, signed, neg_sub_neg, abs_sub_comm]
    have hhalf : |(r : ℚ) - y| * 2 ^ e ≤ 2 ^ (e - 1) := by
      rw [zpow_sub_one₀ (by norm_num), mul_comm (2 ^ e : ℚ)]
      exact mul_le_mul_of_nonneg_right (by linarith [h.error]) hpos.le
    rw [hdiff]
    refine hhalf.trans ?_
    rcases hfull with rfl | hfull
    · exact le_max_right _ _
    · refine le_max_of_le_left ?_
      rw [abs_signed, abs_of_nonneg (mul_nonneg hy hpos.le)]
      have hsplit : (2 : ℚ) ^ (e - 1) = 2 ^ format.mantissaBitsWithoutImplicit * 2 ^ e
          * 2 ^ (-(format.mantissaBits : ℤ)) := by
        rw [← zpow_natCast, ← zpow_add₀ (by norm_num), ← zpow_add₀ (by norm_num),
          Format.mantissaBits]
        congr 1
        push_cast
        ring
      rw [hsplit]
      exact mul_le_mul_of_nonneg_right (mul_le_mul_of_nonneg_right hfull hpos.le) (by positivity)

/-! ## Rounding a mantissa -/

/-- The mantissa and the exponent of a rounded mantissa: rounding up may need one digit more, which
is given up again, and nothing is lost by that. -/
private theorem settle (hr : r ≤ 2 ^ format.mantissaBits) (hmin : format.minExponent ≤ e)
    (hfull : e = format.minExponent ∨ 2 ^ format.mantissaBitsWithoutImplicit ≤ r) :
    ∃ m e', (shiftToTargetExponent format r e .exact).1.mantissa = m ∧
      (shiftToTargetExponent format r e .exact).2 = e' ∧ (m : ℚ) * 2 ^ e' = r * 2 ^ e ∧
      m < 2 ^ format.mantissaBits ∧ format.minExponent ≤ e' ∧
      (2 ^ format.mantissaBitsWithoutImplicit ≤ m ∨ e' = format.minExponent) := by
  have hbits := two_pow_mantissaBits format
  rcases Nat.lt_or_ge r (2 ^ format.mantissaBits) with hlt | hge
  · have hshift : (format.targetExponent (totalExponent r e) - e).toNat = 0 := by
      have hdigits : r.log2 < format.mantissaBits := by
        rcases Nat.eq_zero_or_pos r with rfl | hpos
        · rw [Nat.log2_zero, Format.mantissaBits]
          omega
        · exact (Nat.log2_lt hpos.ne').mpr hlt
      unfold Format.targetExponent totalExponent
      omega
    refine ⟨r, e, ?_, ?_, rfl, hlt, hmin, ?_⟩
    · rw [shiftToTargetExponent, shiftToExponent, hshift]
      rfl
    · rw [shiftToTargetExponent, shiftToExponent, hshift]
      exact Int.add_zero e
    · exact hfull.symm
  · obtain rfl : r = 2 ^ format.mantissaBits := Nat.le_antisymm hr hge
    have hshift : (format.targetExponent (totalExponent (2 ^ format.mantissaBits) e) - e).toNat
        = 1 := by
      unfold Format.targetExponent totalExponent
      rw [Nat.log2_two_pow]
      omega
    have hpos := Nat.two_pow_pos format.mantissaBitsWithoutImplicit
    have hhalf : 2 ^ format.mantissaBits / 2 = 2 ^ format.mantissaBitsWithoutImplicit := by omega
    have hlt : 2 ^ format.mantissaBitsWithoutImplicit < 2 ^ format.mantissaBits := by omega
    refine ⟨2 ^ format.mantissaBitsWithoutImplicit, e + 1, ?_, ?_, ?_, hlt,
      Int.le_add_one hmin, .inl le_rfl⟩
    · rw [shiftToTargetExponent, shiftToExponent, hshift]
      exact hhalf
    · rw [shiftToTargetExponent, shiftToExponent, hshift]
      rfl
    · rw [hbits, zpow_add_one₀ (by norm_num)]
      push_cast
      ring

/-- How many digits a mantissa has behind the first shift. -/
private theorem shifted_bounds {m : ℕ} {n : ℕ} (hle : (m : ℚ) ≤ y) (hlt : y < m + 1)
    (hn : (format.targetExponent (totalExponent m e) - e).toNat = n)
    (he : e ≤ format.targetExponent (totalExponent m e)) :
    y / 2 ^ n < 2 ^ format.mantissaBits ∧
      (format.targetExponent (totalExponent m e) = format.minExponent ∨
        (2 : ℚ) ^ format.mantissaBitsWithoutImplicit ≤ y / 2 ^ n) := by
  have hpos : (0 : ℚ) < 2 ^ n := by positivity
  have hpair : format.mantissaBits = 1 + format.mantissaBitsWithoutImplicit := rfl
  have hm := format.hm
  unfold Format.targetExponent totalExponent at *
  constructor
  · have hdigits : m + 1 ≤ 2 ^ format.mantissaBits * 2 ^ n := by
      rw [← Nat.pow_add]
      exact Nat.lt_of_lt_of_le Nat.lt_log2_self (Nat.pow_le_pow_right (by decide) (by omega))
    rw [div_lt_iff₀ hpos]
    exact hlt.trans_le (by exact_mod_cast hdigits)
  · refine or_iff_not_imp_left.mpr fun hmin => ?_
    have hm0 : m ≠ 0 := by
      rintro rfl
      rw [Nat.log2_zero] at *
      omega
    have hdigits : 2 ^ format.mantissaBitsWithoutImplicit * 2 ^ n ≤ m := by
      rw [← Nat.pow_add]
      exact Nat.le_trans (Nat.pow_le_pow_right (by decide) (by omega)) (Nat.log2_self_le hm0)
    rw [le_div_iff₀ hpos]
    exact le_trans (by exact_mod_cast hdigits) hle

/-- Rounding gives a number that what the mantissa was cut from rounds to, if there are digits
enough to drop some. -/
theorem rounds_roundWithAccuracy {m : ℕ} {accuracy : Accuracy}
    (hcut : CutFrom (.ofMantissaAndAccuracy m accuracy) y)
    (he : e ≤ format.targetExponent (totalExponent m e)) (s : Sign) :
    Rounds format (signed s (y * 2 ^ e)) (roundWithAccuracy format s m e accuracy) := by
  obtain ⟨n, hn⟩ : ∃ n, (format.targetExponent (totalExponent m e) - e).toNat = n := ⟨_, rfl⟩
  have hmantissa : (ExtendedMantissa.ofMantissaAndAccuracy m accuracy).mantissa = m := by
    rcases accuracy with _ | (_ | _ | _) <;> rfl
  have hbounds := hcut.bounds
  rw [hmantissa] at hbounds
  have hy : 0 ≤ y := le_trans (Nat.cast_nonneg m) hbounds.1
  obtain ⟨hdigits, hfull⟩ := shifted_bounds hbounds.1 hbounds.2 hn he
  have hnext := (hcut.shiftRight n).roundedMantissa
  -- both shifts of the rounding, with the rounded mantissa `r` between them
  have hfirst : shiftToTargetExponent format m e accuracy =
      (ExtendedMantissa.ofMantissaAndAccuracy m accuracy >>> n, format.targetExponent (totalExponent m e)) := by
    rw [shiftToTargetExponent, shiftToExponent, hn]
    refine Prod.ext rfl ?_
    dsimp only
    omega
  rw [roundWithAccuracy, hfirst]
  dsimp only
  generalize htarget : format.targetExponent (totalExponent m e) = t at *
  generalize (ExtendedMantissa.ofMantissaAndAccuracy m accuracy >>> n).roundedMantissa = r at *
  have hmin : format.minExponent ≤ t := by
    rw [← htarget]
    exact Int.le_max_right _ _
  have hscale : y * 2 ^ e = y / 2 ^ n * 2 ^ t := by
    have ht : t = e + n := by omega
    rw [ht, zpow_add₀ (by norm_num), zpow_natCast]
    field_simp
  have hr : r ≤ 2 ^ format.mantissaBits := by
    exact_mod_cast hnext.above (2 ^ format.mantissaBits) (by exact_mod_cast hdigits.le)
  have hr' : t = format.minExponent ∨ 2 ^ format.mantissaBitsWithoutImplicit ≤ r := by
    refine hfull.imp_right fun h => ?_
    exact_mod_cast hnext.below (2 ^ format.mantissaBitsWithoutImplicit) (by exact_mod_cast h)
  obtain ⟨_, _, rfl, rfl, hvalue, hcanonical⟩ := settle hr hmin hr'
  rw [hscale]
  have hnonneg : 0 ≤ y / 2 ^ n := by positivity
  split
  · rename_i hzero
    refine hnext.rounds hnonneg hfull s rfl trivial ?_
    rw [← hvalue, hzero, value, Nat.cast_zero, zero_mul]
    cases s <;> simp [signed]
  · refine hnext.rounds hnonneg hfull s rfl hcanonical ?_
    rw [value, hvalue]

end Animatic.Number
