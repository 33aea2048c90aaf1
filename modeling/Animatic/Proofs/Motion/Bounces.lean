import Animatic.Proofs.Geometry.Sampling
import Animatic.Proofs.Playback.Checks

/-!
# Bounces

A primitive that moves stays in the box of the bounds and keeps its speed. On an axis on which it
was brought back its velocity is turned round, whichever way it went: that takes it back into the
box if the velocity carried it out, and out of the box if the primitive was beyond the bounds and on
its way back.

* `rank32_mul_sign`, `rank32_add_le`: in which direction a step carries a coordinate.
* `Bounced`: a coordinate before and after a step; `bounced_of_bounce`.
* `Primitive.move_bounced`: a step of a primitive.
-/

namespace Animatic

open Number
open Float.Model (Format UnpackedFloat)
open Float.Model.UnpackedFloat

variable {x y bound position velocity step : Float32}

/-! ## The direction of a step -/

namespace Number

/-- The rank of a finite number has the sign of its value. -/
theorem value_sign_iff (hx : (exact32 x).isFinite = true) :
    (0 ≤ rank32 x ↔ 0 ≤ value (exact32 x)) ∧ (rank32 x ≤ 0 ↔ value (exact32 x) ≤ 0) :=
  ⟨signedWeight_le_iff (f := .zero .positive) trivial (canonical_exact32 x) rfl hx,
    signedWeight_le_iff (g := .zero .positive) (canonical_exact32 x) trivial hx rfl⟩

/-- Multiplying by what is not negative keeps the sign. -/
theorem rank32_mul_sign (hx : (exact32 x).isFinite = true) (hy : (exact32 y).isFinite = true)
    (h : 0 ≤ rank32 y) :
    (0 ≤ rank32 x → 0 ≤ rank32 (x * y)) ∧ (rank32 x ≤ 0 → rank32 (x * y) ≤ 0) := by
  have hrounds := rounds_mul hx hy (canonical_exact32 x) (canonical_exact32 y)
  have hzero : Canonical .binary32 (.zero .positive) := trivial
  have hkept : unpack .binary32 (pack .binary32 (.zero .positive)) = .zero .positive :=
    unpack_pack trivial trivial
  rw [(value_sign_iff hy).1] at h
  rw [(value_sign_iff hx).1, (value_sign_iff hx).2, rank32, exact32_mul]
  constructor
  · intro hpos
    have hproduct := hrounds.le_of_ge 0 (representable_zero _) (mul_nonneg hpos h)
    have hword := signedWeight_unpack_pack_mono wide32 hzero hrounds.canonical rfl hrounds.isFinite
      hproduct
    rwa [hkept] at hword
  · intro hneg
    have hproduct := hrounds.le_of_le 0 (representable_zero _)
      (mul_nonpos_of_nonpos_of_nonneg hneg h)
    have hword := signedWeight_unpack_pack_mono wide32 hrounds.canonical hzero hrounds.isFinite rfl
      hproduct
    rwa [hkept] at hword

private theorem rank32_add_le_of_isFinite (hx : (exact32 x).isFinite = true)
    (hy : (exact32 y).isFinite = true) :
    (0 ≤ rank32 y → rank32 x ≤ rank32 (x + y)) ∧ (rank32 y ≤ 0 → rank32 (x + y) ≤ rank32 x) := by
  have hcanonical := canonical_exact32 x
  have hrounds := rounds_add hx hy hcanonical (canonical_exact32 y)
  have hvalue := representable_value hcanonical
  rw [(value_sign_iff hy).1, (value_sign_iff hy).2, rank32, rank32, exact32_add]
  constructor <;> intro hsign
  · have hsum := hrounds.le_of_ge _ hvalue (by linarith)
    have hword := signedWeight_unpack_pack_mono wide32 hcanonical hrounds.canonical hx
      hrounds.isFinite hsum
    rwa [unpack_pack_exact32] at hword
  · have hsum := hrounds.le_of_le _ hvalue (by linarith)
    have hword := signedWeight_unpack_pack_mono wide32 hrounds.canonical hcanonical
      hrounds.isFinite hx hsum
    rwa [unpack_pack_exact32] at hword

/-- A step without end leads to one of the ends. -/
private theorem rank32_add_le_of_infinite {s : Sign} (hx : (exact32 x).isFinite = true)
    (hy : exact32 y = .infinity s) :
    (0 ≤ rank32 y → rank32 x ≤ rank32 (x + y)) ∧ (rank32 y ≤ 0 → rank32 (x + y) ≤ rank32 x) := by
  have hcanonical := canonical_exact32 x
  have hrange := inRange_exact32 x
  have htop := signedWeight_le_infinity hcanonical hrange hx
  have hbottom := signedWeight_le_infinity hcanonical.neg hrange.neg (by rwa [isFinite_neg])
  rw [signedWeight_neg] at hbottom
  have hsum : exact32 (x + y) = .infinity s := by
    rw [exact32_add, hy, add_infinity_right hx]
    exact unpack_pack trivial trivial
  have hweight : 0 < signedWeight .binary32 (.infinity .positive) := by decide
  rw [rank32, rank32, rank32, hy, hsum]
  cases s with
  | positive => exact ⟨fun _ => htop, fun h => absurd hweight (not_lt.mpr h)⟩
  | negative =>
    have hflip : signedWeight .binary32 (.infinity .negative) =
      -signedWeight .binary32 (.infinity .positive) := rfl
    rw [hflip]
    exact ⟨fun h => by omega, fun _ => by omega⟩

/-- Adding what is not negative takes nowhere lower, and adding what is not positive nowhere
higher. -/
theorem rank32_add_le (hx : (exact32 x).isFinite = true) (hy : y.isNaN = false) :
    (0 ≤ rank32 y → rank32 x ≤ rank32 (x + y)) ∧ (rank32 y ≤ 0 → rank32 (x + y) ≤ rank32 x) := by
  cases h : exact32 y with
  | infinity s => exact rank32_add_le_of_infinite hx h
  | notANumber => exact absurd h (isNaN32_eq_false.mp hy)
  | zero s | finite s => exact rank32_add_le_of_isFinite hx (by rw [h]; rfl)

end Number

/-! ## Coordinates -/

/-- Where a velocity carries a coordinate. -/
def reached (position velocity step : Float32) : Float32 := position + velocity * step

/-- A velocity leads away from the origin on the side of a place. -/
def LeadsOut (place velocity : Float32) : Prop :=
  0 < place ∧ 0 < velocity ∨ place < 0 ∧ velocity < 0

/-- A velocity leads towards the origin on the side of a place. -/
def LeadsIn (place velocity : Float32) : Prop :=
  0 < place ∧ velocity < 0 ∨ place < 0 ∧ 0 < velocity

/-- A coordinate and its velocity before and after a step between two bounds. -/
structure Bounced (bound step position velocity position' velocity' : Float32) : Prop where
  inside : -bound ≤ position' ∧ position' ≤ bound
  speed : velocity'.abs = velocity.abs
  /-- Within the bounds nothing is in its way. -/
  free : (reached position velocity step).abs ≤ bound →
    position' = reached position velocity step ∧ velocity' = velocity
  /-- What was brought back moves the other way now. Hence its velocity leads out of the box just if
  it led in. -/
  turned : bound < (reached position velocity step).abs → velocity' = -velocity ∧
    (LeadsOut (reached position velocity step) velocity' ↔
      LeadsIn (reached position velocity step) velocity)
  /-- That can only be if it was beyond the bounds and on its way back. -/
  returning : bound < (reached position velocity step).abs →
    LeadsOut (reached position velocity step) velocity' →
      bound < position.abs ∧ LeadsIn position velocity

theorem leadsOut_neg_iff (hplace : x.isNaN = false) (hvelocity : velocity.isNaN = false) :
    LeadsOut x (-velocity) ↔ LeadsIn x velocity := by
  have hneg : (-velocity).isNaN = false := by rwa [isNaN32_neg]
  simp only [LeadsOut, LeadsIn, pos32_iff_rank hplace, neg32_iff_rank hplace, pos32_iff_rank hneg,
    neg32_iff_rank hneg, pos32_iff_rank hvelocity, neg32_iff_rank hvelocity, rank32_neg]
  omega

namespace Primitive

theorem bounce_of_le (h : ¬ bound < x.abs) : bounce bound x velocity = .ok (x, velocity) := by
  rw [bounce, if_neg h]

/-- What is beyond the bounds is brought back to the nearer one. -/
theorem bounce_of_lt (hbound : 0 ≤ bound) (h : bound < x.abs) :
    bounce bound x velocity = .ok (if x < 0 then -bound else bound, -velocity) := by
  have hnumber := (numbers_of_le32 hbound).2
  have hx : x.isNaN = false := by
    have habs := (numbers_of_lt32 h).2
    rwa [isNaN32_abs] at habs
  have hneg : (-bound).isNaN = false := by rwa [isNaN32_neg]
  rw [bounce, if_pos h, if_pos (neg_le_self hbound)]
  rw [nonneg32_iff_rank hnumber] at hbound
  rw [lt32_iff_rank hnumber (by rwa [isNaN32_abs]), rank32_abs] at h
  by_cases hside : x < 0
  · have hrank := (neg32_iff_rank hx).mp hside
    rw [abs_of_neg hrank] at h
    have hbelow : x < -bound := by
      rw [lt32_iff_rank hx hneg, rank32_neg]
      omega
    have hkept : ¬ bound < -bound := by
      rw [lt32_iff_rank hnumber hneg, rank32_neg]
      omega
    simp [hside, hbelow, hkept]
  · have hrank := (neg32_iff_rank hx).not.mp hside
    rw [abs_of_nonneg (not_lt.mp hrank)] at h
    have habove : bound < x := (lt32_iff_rank hnumber hx).mpr h
    have hkept : ¬ x < -bound := by
      rw [lt32_iff_rank hx hneg, rank32_neg]
      omega
    simp [hside, habove, hkept]

end Primitive

section

variable (hposition : (exact32 position).isFinite = true)
  (hvelocity : (exact32 velocity).isFinite = true) (hstep : (exact32 step).isFinite = true)
  (hnonneg : 0 ≤ step)

include hposition hvelocity hstep hnonneg

/-- A step carries a coordinate the way its velocity leads. -/
theorem rank32_reached : (reached position velocity step).isNaN = false ∧
    (0 ≤ rank32 velocity → rank32 position ≤ rank32 (reached position velocity step)) ∧
    (rank32 velocity ≤ 0 → rank32 (reached position velocity step) ≤ rank32 position) := by
  have hnumber := isNaN32_mul hvelocity hstep
  rw [nonneg32_iff_rank (isNaN32_of_isFinite hstep)] at hnonneg
  obtain ⟨hup, hdown⟩ := rank32_mul_sign hvelocity hstep hnonneg
  obtain ⟨hhigher, hlower⟩ := rank32_add_le hposition hnumber
  exact ⟨isNaN32_add hposition hnumber, fun h => hhigher (hup h), fun h => hlower (hdown h)⟩

/-- What is beyond the bounds after a step towards the origin was farther beyond them before. -/
theorem beyond_of_leadsIn (hout : bound < (reached position velocity step).abs)
    (hleads : LeadsIn (reached position velocity step) velocity) :
    bound < position.abs ∧ LeadsIn position velocity := by
  obtain ⟨hreached, hup, hdown⟩ := rank32_reached hposition hvelocity hstep hnonneg
  obtain ⟨hbound, habs⟩ := numbers_of_lt32 hout
  have hp := isNaN32_of_isFinite hposition
  have hv := isNaN32_of_isFinite hvelocity
  rw [lt32_iff_rank hbound habs, rank32_abs] at hout
  rw [lt32_iff_rank hbound (by rwa [isNaN32_abs]), rank32_abs]
  simp only [LeadsIn, pos32_iff_rank hreached, neg32_iff_rank hreached, pos32_iff_rank hp,
    neg32_iff_rank hp, pos32_iff_rank hv, neg32_iff_rank hv] at hleads ⊢
  rcases hleads with ⟨hside, hway⟩ | ⟨hside, hway⟩
  · have hhigher := hdown hway.le
    rw [abs_of_pos hside] at hout
    rw [abs_of_pos (by omega)]
    omega
  · have hlower := hup hway.le
    rw [abs_of_neg hside] at hout
    rw [abs_of_neg (by omega)]
    omega

theorem bounced_of_bounce (hbound : 0 ≤ bound) : ∃ position' velocity',
    Primitive.bounce bound (reached position velocity step) velocity =
      .ok (position', velocity') ∧
    Bounced bound step position velocity position' velocity' := by
  have hnumber := (numbers_of_le32 hbound).2
  have hneg : (-bound).isNaN = false := by rwa [isNaN32_neg]
  have hnumber' := isNaN32_of_isFinite hvelocity
  obtain ⟨hreached, -⟩ := rank32_reached hposition hvelocity hstep hnonneg
  have habs : (reached position velocity step).abs.isNaN = false := by rwa [isNaN32_abs]
  by_cases hout : bound < (reached position velocity step).abs
  · have hback : ∀ {place : Float32}, place = -bound ∨ place = bound →
        -bound ≤ place ∧ place ≤ bound := by
      rintro place (rfl | rfl)
      · exact ⟨(le32_iff_rank hneg hneg).mpr le_rfl, neg_le_self hbound⟩
      · exact ⟨neg_le_self hbound, (le32_iff_rank hnumber hnumber).mpr le_rfl⟩
    refine ⟨_, _, Primitive.bounce_of_lt hbound hout, hback (ite_eq_or_eq _ _ _),
      abs_neg32 velocity, fun hfree => ?_, fun _ => ⟨rfl, leadsOut_neg_iff hreached hnumber'⟩,
      fun _ hleads => ?_⟩
    · rw [le32_iff_rank habs hnumber] at hfree
      rw [lt32_iff_rank hnumber habs] at hout
      omega
    · exact beyond_of_leadsIn hposition hvelocity hstep hnonneg hout
        ((leadsOut_neg_iff hreached hnumber').mp hleads)
  · refine ⟨_, _, Primitive.bounce_of_le hout, ?_, rfl, fun _ => ⟨rfl, rfl⟩,
      fun h => absurd h hout, fun h => absurd h hout⟩
    rw [lt32_iff_rank hnumber habs, rank32_abs, not_lt, abs_le] at hout
    rw [le32_iff_rank hneg hreached, le32_iff_rank hreached hnumber, rank32_neg]
    exact hout

end

/-! ## Primitives -/

namespace Primitive

/-- A primitive that moves from somewhere, at some speed. -/
structure Moving (p : Primitive) : Prop where
  x : p.transform.x.isFinite = true
  y : p.transform.y.isFinite = true
  velocityX : p.velocityX.isFinite = true
  velocityY : p.velocityY.isFinite = true
  moves : ¬ (p.velocityX == 0 && p.velocityY == 0) = true

instance (p : Primitive) : Decidable p.Moving :=
  decidable_of_iff (p.transform.x.isFinite = true ∧ p.transform.y.isFinite = true ∧
      p.velocityX.isFinite = true ∧ p.velocityY.isFinite = true ∧
      ¬ (p.velocityX == 0 && p.velocityY == 0) = true)
    ⟨fun ⟨hx, hy, hvx, hvy, hmoves⟩ => ⟨hx, hy, hvx, hvy, hmoves⟩,
      fun ⟨hx, hy, hvx, hvy, hmoves⟩ => ⟨hx, hy, hvx, hvy, hmoves⟩⟩

/-- A primitive before and after a step. -/
structure HasBounced (bounds : Bounds) (step : Float32) (p q : Primitive) : Prop where
  x : Bounced bounds.x step p.transform.x p.velocityX q.transform.x q.velocityX
  y : Bounced bounds.y step p.transform.y p.velocityY q.transform.y q.velocityY
  /-- Nothing else changes. -/
  rest : q = { p with
    transform := { p.transform with x := q.transform.x, y := q.transform.y }
    velocityX := q.velocityX, velocityY := q.velocityY }

/-- A step of a primitive that moves leaves it between the bounds, at the same speed on each axis.
On an axis on which it was brought back, its velocity leads out of the box only if the primitive was
beyond the bounds before and on its way back. -/
theorem move_bounced {p : Primitive} {bounds : Bounds} (hp : p.Moving)
    (hbounds : bounds.Nonnegative) (hstep : step.isFinite = true) (hnonneg : 0 ≤ step) :
    ∃ q, p.move step bounds = .ok q ∧ p.HasBounced bounds step q := by
  obtain ⟨x, velocityX, hx, hbouncedX⟩ :=
    bounced_of_bounce hp.x hp.velocityX hstep hnonneg hbounds.x
  obtain ⟨y, velocityY, hy, hbouncedY⟩ :=
    bounced_of_bounce hp.y hp.velocityY hstep hnonneg hbounds.y
  refine ⟨{ p with transform := { p.transform with x, y }, velocityX, velocityY }, ?_, hbouncedX,
    hbouncedY, rfl⟩
  rw [move, if_neg hp.moves]
  change (bounce bounds.x (reached p.transform.x p.velocityX step) p.velocityX >>= _) = _
  rw [hx]
  change (bounce bounds.y (reached p.transform.y p.velocityY step) p.velocityY >>= _) = _
  rw [hy]
  rfl

/-- A square that is beyond the bounds and on its way back. -/
def returning : Primitive :=
  let square := rect 1 1 true
  { square with transform := { square.transform with x := 5 }, velocityX := -0.5 }

/-- Within a second it does not reach the box. It is put there and sent away again. -/
theorem returning_leaves : returning.Moving ∧ Bounds.Nonnegative ⟨1, 1⟩ ∧
    ∃ q, returning.move 1 ⟨1, 1⟩ = .ok q ∧ returning.HasBounced ⟨1, 1⟩ 1 q ∧
      LeadsOut (reached 5 (-0.5) 1) q.velocityX := by
  have hmoving : returning.Moving := by decide
  have hbounds : Bounds.Nonnegative ⟨1, 1⟩ := ⟨by decide, by decide⟩
  have hfinite : (1 : Float32).isFinite = true := by decide
  have hnonneg : (0 : Float32) ≤ 1 := by decide
  obtain ⟨q, hq, hbounced⟩ := move_bounced hmoving hbounds hfinite hnonneg
  refine ⟨hmoving, hbounds, q, hq, hbounced, ?_⟩
  exact (hbounced.x.turned (by decide)).2.mpr (.inl (by decide))

end Primitive

end Animatic
