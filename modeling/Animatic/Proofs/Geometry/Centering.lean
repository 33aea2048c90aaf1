import Animatic.Proofs.Geometry.Reconcile

/-!
# Centred outlines

The box around points that are not too large has finite corners, so that centring makes no coordinate
infinite, and neither does resampling after it.

* `center_within`: how large the centre of an outline is.
* `centered_within`: how large the coordinates of a centred outline are.
* `mem_of_mem_closeLoops`: closing the loops of an outline brings no point that it does not have.
* `finite_of_mem_reconcile`: centred outlines that are reconciled have finite points.
-/

namespace Animatic

open Number
open Float.Model (Format UnpackedFloat)
open Float.Model.UnpackedFloat

/-! ## Sizes -/

variable {bound : ℚ} {x y : Float32}

private theorem representable_two_pow (n : ℕ) : Representable .binary32 (2 ^ n) :=
  ⟨1, n, Nat.one_le_two_pow, Int.le_trans (by decide) (Int.natCast_nonneg n), by
    rw [Int.cast_one, one_mul, zpow_natCast]⟩

private theorem small_of_rounds {v : ℚ} {n : ℕ} (h : Rounds .binary32 v (exact32 x))
    (hv : |v| ≤ 2 ^ n) : Small (2 ^ n) x :=
  ⟨h.isFinite, h.abs_value_le (representable_two_pow n) hv⟩

/-- The middle of two numbers is no larger than both. -/
private theorem small_middle (hx : Small (2 ^ 126) x) (hy : Small (2 ^ 126) y) :
    Small (2 ^ 126) ((x + y) * 0.5) := by
  have hsum : |value (exact32 x) + value (exact32 y)| ≤ 2 ^ 127 :=
    calc |value (exact32 x) + value (exact32 y)| ≤ 2 ^ 126 + 2 ^ 126 :=
          (abs_add_le _ _).trans (add_le_add hx.2 hy.2)
      _ = 2 ^ 127 := by norm_num
  have hrounds : Rounds .binary32 (value (exact32 x) + value (exact32 y)) (exact32 (x + y)) :=
    (rounds_add hx.1 hy.1 (canonical_exact32 x) (canonical_exact32 y)).word wide32
      (hsum.trans (two_pow_le_maxFinite (by decide)))
  obtain ⟨hfinite, hsize⟩ := small_of_rounds hrounds hsum
  have hhalf : exact32 0.5 = .finite .positive (2 ^ 23) (-24) (by decide) := by rfl
  have hvalue : value (exact32 0.5) = 1 / 2 := by
    rw [hhalf, value, signed]
    norm_num
  have hproduct : |value (exact32 (x + y)) * value (exact32 0.5)| ≤ 2 ^ 126 := by
    rw [hvalue, abs_mul, abs_of_pos (one_half_pos (α := ℚ))]
    calc |value (exact32 (x + y))| * (1 / 2) ≤ 2 ^ 127 * (1 / 2) :=
          mul_le_mul_of_nonneg_right hsize one_half_pos.le
      _ = 2 ^ 126 := by norm_num
  exact small_of_rounds (rounds_mul32 hfinite (by rw [hhalf]; rfl)
    (hproduct.trans (two_pow_le_maxFinite (by decide)))) hproduct

private theorem small_difference (hx : Small (2 ^ 126) x) (hy : Small (2 ^ 126) y) :
    Small (2 ^ 127) (x - y) := by
  have hdifference : |value (exact32 x) - value (exact32 y)| ≤ 2 ^ 127 :=
    calc |value (exact32 x) - value (exact32 y)| ≤ 2 ^ 126 + 2 ^ 126 :=
          (abs_sub _ _).trans (add_le_add hx.2 hy.2)
      _ = 2 ^ 127 := by norm_num
  exact small_of_rounds
    (rounds_sub32 hx.1 hy.1 (hdifference.trans (two_pow_le_maxFinite (by decide)))) hdifference

theorem within_origin (hbound : 0 ≤ bound) : Point.origin.Within bound := by
  have hzero : Small bound 0 := by
    refine ⟨rfl, ?_⟩
    have hvalue : value (exact32 0) = 0 := rfl
    rw [hvalue, abs_zero]
    exact hbound
  exact ⟨hzero, hzero⟩

/-! ## Boxes -/

private theorem least32_or (x y : Float32) : least32 x y = x ∨ least32 x y = y := by
  rw [least32]
  split
  · exact .inr rfl
  · split
    · exact .inr rfl
    · exact .inl rfl

private theorem greatest32_or (x y : Float32) : greatest32 x y = x ∨ greatest32 x y = y := by
  rw [greatest32]
  split
  · exact .inr rfl
  · split
    · exact .inr rfl
    · exact .inl rfl

private theorem small_corner (hx : Small bound x) (hy : Small bound y) :
    Small bound (least32 x y) ∧ Small bound (greatest32 x y) := by
  constructor
  · rcases least32_or x y with h | h <;> rwa [h]
  · rcases greatest32_or x y with h | h <;> rwa [h]

private theorem lt_of_lt_exact {x y : Float32} (h : (exact32 x).lt (exact32 y) = true) : x < y := by
  simp only [LT.lt, Float32.lt, Float32.Model.lt]
  exact decide_eq_true_iff.mpr h

private theorem between_infinities (hx : x.isFinite = true) : -(1 / 0) < x ∧ x < 1 / 0 := by
  have hlow : exact32 (-(1 / 0)) = .infinity .negative := by rfl
  have hhigh : exact32 (1 / 0) = .infinity .positive := by rfl
  change (exact32 x).isFinite = true at hx
  constructor <;> refine lt_of_lt_exact ?_
  · rw [hlow]
    cases h : exact32 x with
    | zero s | finite s => rfl
    | infinity s | notANumber => rw [h] at hx; cases hx
  · rw [hhigh]
    cases h : exact32 x with
    | zero s | finite s => rfl
    | infinity s | notANumber => rw [h] at hx; cases hx

private theorem least32_infinity (hx : x.isFinite = true) : least32 (1 / 0) x = x := by
  rw [least32, if_neg (by decide), if_pos (between_infinities hx).2]

private theorem greatest32_infinity (hx : x.isFinite = true) : greatest32 (-(1 / 0)) x = x := by
  rw [greatest32, if_neg (by decide), if_pos (between_infinities hx).1]

namespace Outline

variable {outline : Outline} {points : List Point}

/-- A box grown so that a point is in it. -/
private def grow (box : Point × Point) (p : Point) : Point × Point :=
  (⟨least32 box.1.x p.x, least32 box.1.y p.y⟩, ⟨greatest32 box.2.x p.x, greatest32 box.2.y p.y⟩)

private theorem grow_nothing {p : Point} (h : p.Finite) :
    grow (⟨1 / 0, 1 / 0⟩, ⟨-(1 / 0), -(1 / 0)⟩) p = (p, p) := by
  rw [grow, least32_infinity h.1, least32_infinity h.2, greatest32_infinity h.1,
    greatest32_infinity h.2]

private theorem foldl_grow_within {box : Point × Point} (hlow : box.1.Within bound)
    (hhigh : box.2.Within bound) (h : ∀ p ∈ points, p.Within bound) :
    (points.foldl grow box).1.Within bound ∧ (points.foldl grow box).2.Within bound := by
  induction points generalizing box with
  | nil => exact ⟨hlow, hhigh⟩
  | cons p rest ih =>
    rw [List.forall_mem_cons] at h
    exact ih ⟨(small_corner hlow.1 h.1.1).1, (small_corner hlow.2 h.1.2).1⟩
      ⟨(small_corner hhigh.1 h.1.1).2, (small_corner hhigh.2 h.1.2).2⟩ h.2

/-- The corners of the box around some points are no larger than the points. -/
theorem corners_within (hne : points ≠ []) (h : ∀ p ∈ points, p.Within bound) :
    (corners points).1.Within bound ∧ (corners points).2.Within bound := by
  obtain ⟨first, rest, rfl⟩ := List.exists_cons_of_ne_nil hne
  rw [List.forall_mem_cons] at h
  have hcorners : corners (first :: rest) =
      rest.foldl grow (grow (⟨1 / 0, 1 / 0⟩, ⟨-(1 / 0), -(1 / 0)⟩) first) := rfl
  rw [hcorners, grow_nothing h.1.finite]
  exact foldl_grow_within h.1 h.1 h.2

/-! ## Centring -/

/-- The points of an outline that are no separators are no larger than some bound. -/
def AllWithin (bound : ℚ) (outline : Outline) : Prop :=
  ∀ p ∈ outline, p.isSeparator = false → p.Within bound

instance (bound : ℚ) (outline : Outline) : Decidable (AllWithin bound outline) :=
  inferInstanceAs (Decidable (∀ p ∈ outline, p.isSeparator = false → p.Within bound))

theorem AllWithin.allFinite (h : AllWithin bound outline) : AllFinite outline :=
  fun p hp hpoint => (h p hp hpoint).finite

theorem center_within (h : AllWithin (2 ^ 126) outline) : outline.center.Within (2 ^ 126) := by
  have horigin : Point.origin.Within (2 ^ 126) := within_origin (by positivity)
  have hpoints : ∀ p ∈ outline.filter (!·.isSeparator), p.Within (2 ^ 126) := by
    intro p hp
    obtain ⟨hmem, hpoint⟩ := List.mem_filter.mp hp
    exact h p hmem (by simpa using hpoint)
  rw [center]
  by_cases hnil : outline.filter (!·.isSeparator) = []
  · rw [hnil]
    exact horigin
  · obtain ⟨hlow, hhigh⟩ := corners_within hnil hpoints
    dsimp only
    split
    · exact horigin
    · exact ⟨small_middle hlow.1 hhigh.1, small_middle hlow.2 hhigh.2⟩

theorem centered_within (h : AllWithin (2 ^ 126) outline) :
    AllWithin (2 ^ 127) outline.centered := by
  have hcenter := center_within h
  intro p hp hpoint
  obtain ⟨q, hq, rfl⟩ := List.mem_map.mp hp
  cases hseparator : q.isSeparator with
  | true =>
    rw [hseparator, if_pos rfl, hseparator] at hpoint
    cases hpoint
  | false =>
    obtain ⟨hx, hy⟩ := h q hq hseparator
    rw [if_neg Bool.false_ne_true]
    exact ⟨small_difference hx hcenter.1, small_difference hy hcenter.2⟩

/-! ## Closing -/

private theorem mem_of_mem_closeLoop {loop : List Point} {p : Point} (h : p ∈ closeLoop loop) :
    p ∈ loop := by
  unfold closeLoop at h
  split at h
  · split at h
    · exact h
    · rcases List.mem_append.mp h with h | h
      · exact h
      · obtain rfl := List.mem_singleton.mp h
        exact List.mem_cons_self
  · exact h

/-- Closing the loops of an outline brings no point that it does not have. -/
theorem mem_of_mem_closeLoops {p : Point} (h : p ∈ outline.closeLoops) :
    p = .separator ∨ p ∈ outline := by
  refine (mem_ofLoops h).imp_right fun ⟨loop, hloop, hp⟩ => ?_
  obtain ⟨kept, hkept, rfl⟩ := List.mem_map.mp hloop
  exact mem_of_mem_loops hkept (mem_of_mem_closeLoop hp)

theorem closeLoops_within (h : AllWithin bound outline) : AllWithin bound outline.closeLoops := by
  intro p hp hpoint
  rcases mem_of_mem_closeLoops hp with rfl | hp
  · cases hpoint
  · exact h p hp hpoint

/-! ## Reconciling -/

/-- The points of centred outlines that are reconciled are finite, or separators. -/
theorem finite_of_mem_reconcile {start target : Outline} (haddressable : Addressable start target)
    (hstart : AllWithin (2 ^ 127) start) (htarget : AllWithin (2 ^ 127) target) :
    AllFinite (reconcile start target).1 ∧ AllFinite (reconcile start target).2 := by
  have hfinite {p : Point}
      (hp : p ∈ (reconcile start target).1 ∨ p ∈ (reconcile start target).2)
      (hpoint : p.isSeparator = false) : p.Finite := by
    obtain rfl | hp | ⟨u, v, t, hu, hv, ht, rfl⟩ :=
      mem_reconcile haddressable hstart htarget (within_origin (by positivity)) hp
    · cases hpoint
    · exact hp.finite
    · exact blend_finite hu hv ht
  exact ⟨fun p hp => hfinite (.inl hp), fun p hp => hfinite (.inr hp)⟩

end Outline

end Animatic
