import Animatic.Geometry.Matching
import Animatic.Proofs.Number.Single

/-!
# Points between points

A resampled point is a blend of two neighbours, by a share between zero and one: the places of the
new points are rounded, but never beyond the end of the loop. A blend of finite points by such a
share is no separator.

* `blend_not_separator`, `blend_finite`: the blend of two finite points.
* `place_bounds`: where a new point falls.
* `resampledPoint_between`: the new points of a loop.
-/

namespace Animatic

open Number
open Float.Model (Format UnpackedFloat)
open Float.Model.UnpackedFloat

/-- A point with finite coordinates. -/
def Point.Finite (p : Point) : Prop := p.x.isFinite = true ∧ p.y.isFinite = true

/-- A number from zero to one. -/
def IsShare (f : UnpackedFloat) : Prop := f.isFinite = true ∧ 0 ≤ value f ∧ value f ≤ 1

/-! ## Shares -/

private theorem representable_one {format : Format} (hmin : format.minExponent ≤ 0) :
    Representable format 1 := by
  have hone : Representable format (1 : ℕ) := representable_natCast hmin Nat.one_le_two_pow
  rwa [Nat.cast_one] at hone

theorem Point.Finite.not_separator {p : Point} (h : p.Finite) : p.isSeparator = false := by
  have hx : p.x.isNaN = false := isNaN_of_isFinite h.1
  have hy : p.y.isNaN = false := isNaN_of_isFinite h.2
  rw [isSeparator, hx, hy]
  rfl

/-- What is rounded within zero and one stays there. -/
theorem isShare_of_rounds {format : Format} {x : ℚ} {f : UnpackedFloat} (h : Rounds format x f)
    (hmin : format.minExponent ≤ 0) (hzero : 0 ≤ x) (hone : x ≤ 1) : IsShare f :=
  ⟨h.isFinite, h.le_of_ge 0 (representable_zero format) hzero,
    h.le_of_le 1 (representable_one hmin) hone⟩

/-! ## Blends -/

/-- What is left of one by a number between zero and two. -/
private theorem rounds_rest {t : Float32} (hfinite : (exact32 t).isFinite = true)
    (hzero : 0 ≤ value (exact32 t)) (htwo : value (exact32 t) ≤ 2) :
    Rounds .binary32 (1 - value (exact32 t)) (exact32 (1 - t)) := by
  obtain ⟨hfiniteOne, hvalueOne⟩ := value_one32
  have hsmall : |1 - value (exact32 t)| ≤ maxFinite .binary32 := by
    refine le_trans (abs_le.mpr ⟨by linarith, by linarith⟩) (one_le_maxFinite _)
  have hword := rounds_sub32 hfiniteOne hfinite (by rwa [hvalueOne])
  rwa [hvalueOne] at hword

/-- A finite number times one that is no larger than one. -/
private theorem rounds_part {a t : Float32} (ha : a.isFinite = true)
    (hfinite : (exact32 t).isFinite = true) (ht : |value (exact32 t)| ≤ 1) :
    Rounds .binary32 (value (exact32 a) * value (exact32 t)) (exact32 (a * t)) := by
  refine rounds_mul32 ha hfinite ?_
  calc |value (exact32 a) * value (exact32 t)| = |value (exact32 a)| * |value (exact32 t)| :=
      abs_mul _ _
    _ ≤ |value (exact32 a)| := mul_le_of_le_one_right (abs_nonneg _) ht
    _ ≤ maxFinite .binary32 := abs_value_le (canonical_exact32 a) (canonical_unpack wide32 _).2

/-- A blend of finite numbers is a number. The second part may become infinite if it is more than
the whole. -/
private theorem isNaN_blend {a b t : Float32} (ha : a.isFinite = true) (hb : b.isFinite = true)
    (hfinite : (exact32 t).isFinite = true) (hzero : 0 ≤ value (exact32 t))
    (htwo : value (exact32 t) ≤ 2) : (a * (1 - t) + b * t).isNaN = false := by
  have hrest := rounds_rest hfinite hzero htwo
  have hone : |value (exact32 (1 - t))| ≤ 1 :=
    hrest.abs_value_le (representable_one (by decide)) (abs_le.mpr ⟨by linarith, by linarith⟩)
  have hleft := (rounds_part ha hrest.isFinite hone).isFinite
  exact isNaN32_add hleft (isNaN32_mul hb hfinite)

/-- A blend of finite points is no separator, even somewhat behind the second one. -/
theorem blend_not_separator {p q : Point} {t : Float32} (hp : p.Finite) (hq : q.Finite)
    (hfinite : (exact32 t).isFinite = true) (hzero : 0 ≤ value (exact32 t))
    (htwo : value (exact32 t) ≤ 2) : (p.blend q t).isSeparator = false := by
  have hx : (p.blend q t).x.isNaN = false := isNaN_blend hp.1 hq.1 hfinite hzero htwo
  have hy : (p.blend q t).y.isNaN = false := isNaN_blend hp.2 hq.2 hfinite hzero htwo
  rw [Point.isSeparator, hx, hy]
  rfl

/-- A coordinate that is no larger than some bound. -/
def Small (bound : ℚ) (x : Float32) : Prop := x.isFinite = true ∧ |value (exact32 x)| ≤ bound

instance (bound : ℚ) (x : Float32) : Decidable (Small bound x) :=
  inferInstanceAs (Decidable (_ ∧ _))

/-- A point with coordinates that are no larger than some bound. -/
def Point.Within (bound : ℚ) (p : Point) : Prop := Small bound p.x ∧ Small bound p.y

instance (bound : ℚ) (p : Point) : Decidable (p.Within bound) :=
  inferInstanceAs (Decidable (_ ∧ _))

theorem Point.Within.finite {bound : ℚ} {p : Point} (h : p.Within bound) : p.Finite :=
  ⟨h.1.1, h.2.1⟩

/-- The part of a number that is not too large grows by nothing when it is rounded. -/
private theorem abs_mul_le {a t : Float32} (ha : Small (2 ^ 127) a) (ht : IsShare (exact32 t)) :
    (exact32 (a * t)).isFinite = true ∧
      |value (exact32 (a * t))| ≤ 2 ^ 127 * value (exact32 t) := by
  obtain ⟨hfinite, hzero, hone⟩ := ht
  have hproduct : |value (exact32 a) * value (exact32 t)| ≤ 2 ^ 127 * value (exact32 t) := by
    rw [abs_mul, abs_of_nonneg hzero]
    exact mul_le_mul_of_nonneg_right ha.2 hzero
  have hrounds := rounds_part ha.1 hfinite (abs_le.mpr ⟨by linarith, hone⟩)
  exact ⟨hrounds.isFinite, hrounds.abs_value_le
    (Representable.two_pow_mul (representable_value (canonical_exact32 t)) 127) hproduct⟩

private theorem isFinite_blend {a b t : Float32} (ha : Small (2 ^ 127) a) (hb : Small (2 ^ 127) b)
    (ht : IsShare (exact32 t)) : (exact32 (a * (1 - t) + b * t)).isFinite = true := by
  obtain ⟨hfinite, hzero, hone⟩ := ht
  have hrest := rounds_rest hfinite hzero (hone.trans one_le_two)
  have hrestShare : IsShare (exact32 (1 - t)) :=
    isShare_of_rounds hrest (by decide) (by linarith) (by linarith)
  obtain ⟨hleftFinite, hleft⟩ := abs_mul_le ha hrestShare
  obtain ⟨hrightFinite, hright⟩ := abs_mul_le hb ⟨hfinite, hzero, hone⟩
  -- both shares together are no more than one and a half
  have hshares : value (exact32 (1 - t)) ≤ 3 / 2 - value (exact32 t) := by
    have hhalf : max (|1 - value (exact32 t)| * 2 ^ (-(Format.binary32.mantissaBits : ℤ)))
        (2 ^ (Format.binary32.minExponent - 1)) ≤ (1 / 2 : ℚ) := by
      refine max_le ?_ ?_
      · rw [abs_of_nonneg (by linarith)]
        calc (1 - value (exact32 t)) * 2 ^ (-(Format.binary32.mantissaBits : ℤ))
            ≤ 1 * 2 ^ (-(1 : ℤ)) := mul_le_mul (by linarith)
              (zpow_le_zpow_right₀ (by norm_num) (by decide)) (by positivity) (by norm_num)
          _ = 1 / 2 := by norm_num
      · calc (2 : ℚ) ^ (Format.binary32.minExponent - 1) ≤ 2 ^ (-(1 : ℤ)) :=
            zpow_le_zpow_right₀ (by norm_num) (by decide)
          _ = 1 / 2 := by norm_num
    linarith [(abs_le.mp (hrest.error.trans hhalf)).2]
  have hmax : 2 ^ 127 * (3 / 2 : ℚ) ≤ maxFinite .binary32 := by
    have hexponent : maxExponent .binary32 = (104 : ℕ) := by decide
    rw [maxFinite, hexponent, zpow_natCast]
    norm_num [Format.mantissaBits]
  have hsum : |value (exact32 (a * (1 - t))) + value (exact32 (b * t))| ≤ maxFinite .binary32 :=
    calc |value (exact32 (a * (1 - t))) + value (exact32 (b * t))|
        ≤ 2 ^ 127 * value (exact32 (1 - t)) + 2 ^ 127 * value (exact32 t) :=
          (abs_add_le _ _).trans (add_le_add hleft hright)
      _ ≤ 2 ^ 127 * (3 / 2) := by linarith
      _ ≤ maxFinite .binary32 := hmax
  rw [exact32_add]
  exact ((rounds_add hleftFinite hrightFinite (canonical_exact32 _) (canonical_exact32 _)).word
    wide32 hsum).isFinite

/-- A blend of points that are not too large by a share is finite. -/
theorem blend_finite {p q : Point} {t : Float32} (hp : p.Within (2 ^ 127)) (hq : q.Within (2 ^ 127))
    (ht : IsShare (exact32 t)) : (p.blend q t).Finite :=
  ⟨isFinite_blend hp.1 hq.1 ht, isFinite_blend hp.2 hq.2 ht⟩

/-! ## Places -/

variable {last count i : ℕ}

/-- The place of a new point, `i` of `count` steps over `last` edges, is rounded twice but stays
within the loop. -/
theorem place_bounds (hlast : 0 < last) (hlast' : last < 2 ^ 53) (hcount : count < 2 ^ 53)
    (hi : i < count) :
    (exact (Float.ofNat i * (Float.ofNat last / Float.ofNat count))).isFinite = true ∧
      0 ≤ value (exact (Float.ofNat i * (Float.ofNat last / Float.ofNat count))) ∧
      value (exact (Float.ofNat i * (Float.ofNat last / Float.ofNat count))) ≤ last := by
  have hpos : 0 < count := Nat.zero_lt_of_lt hi
  have hi' : i < 2 ^ 53 := Nat.lt_trans hi hcount
  obtain ⟨hiFinite, hiValue⟩ := value_ofNat hi'
  obtain ⟨hstepFinite, hstepPos, hstep⟩ := ofNat_div_bounds hlast hlast' hpos hcount
  generalize Float.ofNat last / Float.ofNat count = step at *
  have hposQ : (0 : ℚ) < count := by exact_mod_cast hpos
  have hquotient : (0 : ℚ) ≤ (last : ℚ) / count := by positivity
  have hiCount : (i : ℚ) + 1 ≤ count := by exact_mod_cast hi
  -- at least one step is left, which makes up for what each one is rounded up by
  have hproduct : (i : ℚ) * value (exact step) ≤ last := calc
    (i : ℚ) * value (exact step) ≤ i * ((last : ℚ) / count * (1 + 1 / 2 ^ 53)) :=
      mul_le_mul_of_nonneg_left hstep (by positivity)
    _ ≤ (i + 1) * ((last : ℚ) / count) := grown_mul_le hi'.le hquotient
    _ ≤ count * ((last : ℚ) / count) := mul_le_mul_of_nonneg_right hiCount hquotient
    _ = last := mul_div_cancel₀ _ hposQ.ne'
  have hnonneg : (0 : ℚ) ≤ i * value (exact step) := mul_nonneg (by positivity) hstepPos
  have hsmall : |(i : ℚ) * value (exact step)| ≤ maxFinite .binary64 := by
    rw [abs_of_nonneg hnonneg]
    exact hproduct.trans (natCast_le_maxFinite64 hlast')
  have hword := rounds_mul64 hiFinite hstepFinite (by rwa [hiValue])
  rw [hiValue] at hword
  exact ⟨hword.isFinite, hword.le_of_ge 0 (representable_zero _) hnonneg,
    hword.le_of_le last (representable_natCast (by decide) hlast'.le) hproduct⟩

/-! ## New points -/

theorem isShare_narrow {x : Float} (hx : IsShare (exact x)) : IsShare (exact32 (narrow x)) := by
  obtain ⟨hfinite, hzero, hone⟩ := hx
  have hnearest : Rounds .binary32 (value (exact x)) (nearest .binary32 (exact x)) :=
    rounds_nearest hfinite
  have hsmall : |value (exact x)| ≤ maxFinite .binary32 := by
    rw [abs_of_nonneg hzero]
    exact hone.trans (one_le_maxFinite _)
  have hword : Rounds .binary32 (value (exact x)) (exact32 (narrow x)) :=
    hnearest.word wide32 hsmall
  exact isShare_of_rounds hword (by decide) hzero hone

/-- A place within a loop is by a share behind the point in front of it. -/
theorem isShare_place {place : Float} (hlast : 0 < last) (hlast' : last < 2 ^ 53)
    (hfinite : (exact place).isFinite = true) (hzero : 0 ≤ value (exact place))
    (htop : value (exact place) ≤ last) :
    IsShare (exact32 (narrow
      (place - Float.ofNat (min (truncWithin longLimit (exact place)) (last - 1))))) := by
  have hlimit : value (exact place) < longLimit := by
    have hlong : 2 ^ 53 ≤ longLimit := by decide
    exact htop.trans_lt (by exact_mod_cast Nat.lt_of_lt_of_le hlast' hlong)
  obtain ⟨hfloor, hceil⟩ := truncWithin_bounds hfinite hzero hlimit
  have hedge : ((last - 1 : ℕ) : ℚ) = last - 1 := by
    rw [Nat.cast_sub hlast, Nat.cast_one]
  generalize truncWithin longLimit (exact place) = whole at *
  obtain ⟨index, hindex⟩ : ∃ index, min whole (last - 1) = index := ⟨_, rfl⟩
  rw [hindex]
  have hindexTop : index < 2 ^ 53 := by omega
  obtain ⟨hindexFinite, hindexValue⟩ := value_ofNat hindexTop
  -- the last edge ends at the last point, which a place may reach
  have hbounds : (index : ℚ) ≤ value (exact place) ∧ value (exact place) - index ≤ 1 := by
    rcases Nat.le_total whole (last - 1) with hle | hle
    · obtain rfl : whole = index := by rw [← hindex, min_eq_left hle]
      exact ⟨hfloor, by linarith⟩
    · obtain rfl : last - 1 = index := by rw [← hindex, min_eq_right hle]
      have hwhole : ((last - 1 : ℕ) : ℚ) ≤ whole := by exact_mod_cast hle
      exact ⟨hwhole.trans hfloor, by rw [hedge]; linarith⟩
  have hsmall : |value (exact place) - index| ≤ maxFinite .binary64 := by
    rw [abs_of_nonneg (by linarith [hbounds.1])]
    exact hbounds.2.trans (one_le_maxFinite _)
  have hword := rounds_sub64 hfinite hindexFinite (by rwa [hindexValue])
  rw [hindexValue] at hword
  exact isShare_narrow
    (isShare_of_rounds hword (by decide) (by linarith [hbounds.1]) hbounds.2)

/-- A new point of a loop lies between two of its points, by a share. -/
theorem resampledPoint_between {loop : List Point} (hlength : loop.length = last + 1)
    (hlast : 0 < last) (hlast' : last < 2 ^ 53) (hcount : count < 2 ^ 53) (hi : i < count) :
    ∃ p q t, p ∈ loop ∧ q ∈ loop ∧ IsShare (exact32 t) ∧
      resampledPoint loop (Float.ofNat last / Float.ofNat count) i = p.blend q t := by
  obtain ⟨hfinite, hzero, htop⟩ := place_bounds hlast hlast' hcount hi
  have hedge : loop.length - 2 = last - 1 := by omega
  have hmem {index : ℕ} (hindex : index ≤ last) : loop.getD index .origin ∈ loop := by
    have hin : index < loop.length := by omega
    rw [← List.getElem_eq_getD (h := hin)]
    exact List.getElem_mem hin
  rw [resampledPoint, hedge]
  exact ⟨_, _, _, hmem (by omega), hmem (by omega),
    isShare_place hlast hlast' hfinite hzero htop, rfl⟩

end Animatic
