import Animatic.Proofs.Number.Canonical

/-!
# The order of numbers

Numbers other than not-a-number are ordered as integers are: `rank` reads the pattern of a binary64
number as a magnitude with a sign. Both zeros have rank zero.

* `le_iff_rank`, `lt_iff_rank`, `beq_iff_rank`: the comparisons compare ranks.
* `orderKey_le_iff`: the key of the total order agrees with them but for the two zeros.
-/

namespace Animatic.Number

open Float.Model (Format UnpackedFloat)
open Float.Model.UnpackedFloat

/-! ## Weights of canonical values -/

/-- The size of a value, as the pattern of its exponent and mantissa. -/
def weight (format : Format) : UnpackedFloat → Nat
  | .finite _ m e _ =>
    m + (e - format.minExponent).toNat * 2 ^ format.mantissaBitsWithoutImplicit
  | .infinity _ => (2 ^ format.exponentBits - 1) * 2 ^ format.mantissaBitsWithoutImplicit
  | _ => 0

/-- The size of a value with its sign. -/
def signedWeight (format : Format) (f : UnpackedFloat) : Int :=
  match f with
  | .finite s .. | .infinity s | .zero s => s.apply (weight format f)
  | .notANumber => 0

/-- Exponents first, then mantissas: that is how canonical values compare, and their weights. -/
private theorem compare_finite {format : Format} {s : Sign} {m₁ m₂ : Nat} {e₁ e₂ : Int}
    {h₁ : 0 < m₁} {h₂ : 0 < m₂} (c₁ : Canonical format (.finite s m₁ e₁ h₁))
    (c₂ : Canonical format (.finite s m₂ e₂ h₂)) :
    (compare e₁ e₂).then (compare m₁ m₂) =
      compare (weight format (.finite s m₁ e₁ h₁)) (weight format (.finite s m₂ e₂ h₂)) := by
  obtain ⟨hlt₁, hle₁, hfull₁⟩ := c₁
  obtain ⟨hlt₂, hle₂, hfull₂⟩ := c₂
  have hp := two_pow_mantissaBits format
  simp only [weight]
  obtain ⟨k₁, hk₁⟩ : ∃ k : Nat, e₁ = format.minExponent + k :=
    ⟨(e₁ - format.minExponent).toNat, by omega⟩
  obtain ⟨k₂, hk₂⟩ : ∃ k : Nat, e₂ = format.minExponent + k :=
    ⟨(e₂ - format.minExponent).toNat, by omega⟩
  have hn₁ : (e₁ - format.minExponent).toNat = k₁ := by omega
  have hn₂ : (e₂ - format.minExponent).toNat = k₂ := by omega
  rw [hn₁, hn₂]
  generalize 2 ^ format.mantissaBitsWithoutImplicit = P at *
  rcases Nat.lt_trichotomy k₁ k₂ with h | h | h
  · have hstep : (k₁ + 1) * P ≤ k₂ * P := Nat.mul_le_mul_right P h
    rw [Nat.add_mul, Nat.one_mul] at hstep
    rw [compare_lt_iff_lt.mpr (by omega : e₁ < e₂), eq_comm]
    exact compare_lt_iff_lt.mpr (by omega)
  · rw [compare_eq_iff_eq.mpr (by omega : e₁ = e₂), h]
    change compare m₁ m₂ = _
    rcases Nat.lt_trichotomy m₁ m₂ with hm | hm | hm
    · rw [compare_lt_iff_lt.mpr hm, compare_lt_iff_lt.mpr (by omega)]
    · rw [compare_eq_iff_eq.mpr hm, compare_eq_iff_eq.mpr (by omega)]
    · rw [compare_gt_iff_gt.mpr hm, compare_gt_iff_gt.mpr (by omega)]
  · have hstep : (k₂ + 1) * P ≤ k₁ * P := Nat.mul_le_mul_right P h
    rw [Nat.add_mul, Nat.one_mul] at hstep
    rw [compare_gt_iff_gt.mpr (by omega : e₁ > e₂), eq_comm]
    exact compare_gt_iff_gt.mpr (by omega)

theorem weight_finite_lt {format : Format} {s t : Sign} {m : Nat} {e : Int} {hm : 0 < m}
    (hc : Canonical format (.finite s m e hm)) (hr : InRange format (.finite s m e hm)) :
    0 < weight format (.finite s m e hm) ∧
      weight format (.finite s m e hm) < weight format (.infinity t) := by
  obtain ⟨hlt, hle, hfull⟩ := hc
  have hp := two_pow_mantissaBits format
  simp only [InRange, maxExponent] at hr
  simp only [weight]
  obtain ⟨k, hk⟩ : ∃ k : Nat, e = format.minExponent + k :=
    ⟨(e - format.minExponent).toNat, by omega⟩
  have hn : (e - format.minExponent).toNat = k := by omega
  have hc : ((2 ^ format.exponentBits : Nat) : Int) = 2 ^ format.exponentBits := by push_cast; rfl
  have hstep : (k + 2) * 2 ^ format.mantissaBitsWithoutImplicit
      ≤ (2 ^ format.exponentBits - 1) * 2 ^ format.mantissaBitsWithoutImplicit :=
    Nat.mul_le_mul_right _ (by omega)
  rw [Nat.add_mul] at hstep
  rw [hn]
  omega

private theorem infinity_weight_pos (format : Format) (s : Sign) :
    0 < weight format (.infinity s) := by
  have h : 2 ^ 1 ≤ 2 ^ format.exponentBits := Nat.pow_le_pow_right (by decide) format.he
  exact Nat.mul_pos (by omega) (Nat.two_pow_pos _)

private theorem some_lt {a b : Int} (h : a < b) : some Ordering.lt = some (compare a b) := by
  rw [compare_lt_iff_lt.mpr h]

private theorem some_gt {a b : Int} (h : b < a) : some Ordering.gt = some (compare a b) := by
  rw [compare_gt_iff_gt.mpr h]

private theorem compare_natCast (a b : Nat) : compare (a : Int) (b : Int) = compare a b := by
  rcases Nat.lt_trichotomy a b with h | h | h
  · rw [compare_lt_iff_lt.mpr h, compare_lt_iff_lt.mpr (by omega)]
  · rw [compare_eq_iff_eq.mpr h, compare_eq_iff_eq.mpr (by omega)]
  · rw [compare_gt_iff_gt.mpr h, compare_gt_iff_gt.mpr (by omega)]

private theorem compare_neg_natCast (a b : Nat) :
    compare (-(a : Int)) (-(b : Int)) = (compare a b).swap := by
  rcases Nat.lt_trichotomy a b with h | h | h
  · rw [compare_lt_iff_lt.mpr h, compare_gt_iff_gt.mpr (by omega)]; rfl
  · rw [compare_eq_iff_eq.mpr h, compare_eq_iff_eq.mpr (by omega)]; rfl
  · rw [compare_gt_iff_gt.mpr h, compare_lt_iff_lt.mpr (by omega)]; rfl

section

variable {format : Format} {s : Sign} {m : Nat} {e : Int} {hm : 0 < m} {g : UnpackedFloat}
  (hg : g.isNaN = false) (cg : Canonical format g ∧ InRange format g)

include hg cg

private theorem compare_zero : (UnpackedFloat.zero s).compare g =
    some (compare (signedWeight format (.zero s)) (signedWeight format g)) := by
  have htop (t : Sign) := infinity_weight_pos format t
  have hzero (t : Sign) : weight format (.zero t) = 0 := rfl
  cases g with
  | notANumber => simp [isNaN] at hg
  | zero t => cases s <;> cases t <;> rfl
  | infinity t =>
    have h := htop t
    cases s <;> cases t <;> simp only [UnpackedFloat.compare, signedWeight, Sign.apply, hzero] <;>
      first | exact some_gt (by omega) | exact some_lt (by omega)
  | finite t n b hn =>
    have h := weight_finite_lt (t := .positive) cg.1 cg.2
    cases s <;> cases t <;> simp only [UnpackedFloat.compare, signedWeight, Sign.apply, hzero] <;>
      first | exact some_gt (by omega) | exact some_lt (by omega)

private theorem compare_infinity : (UnpackedFloat.infinity s).compare g =
    some (compare (signedWeight format (.infinity s)) (signedWeight format g)) := by
  have htop := infinity_weight_pos format .positive
  have htop' : weight format (.infinity .negative) = weight format (.infinity .positive) := rfl
  have hzero (t : Sign) : weight format (.zero t) = 0 := rfl
  cases g with
  | notANumber => simp [isNaN] at hg
  | zero t =>
    cases s <;> cases t <;> simp only [UnpackedFloat.compare, signedWeight, Sign.apply, hzero] <;>
      first | exact some_gt (by omega) | exact some_lt (by omega)
  | infinity t =>
    cases s <;> cases t <;> simp only [UnpackedFloat.compare, signedWeight, Sign.apply]
    · exact congrArg some (compare_eq_iff_eq.mpr rfl).symm
    · exact some_lt (by omega)
    · exact some_gt (by omega)
    · exact congrArg some (compare_eq_iff_eq.mpr rfl).symm
  | finite t n b hn =>
    have h := weight_finite_lt (t := .positive) cg.1 cg.2
    cases s <;> cases t <;> simp only [UnpackedFloat.compare, signedWeight, Sign.apply] <;>
      first | exact some_gt (by omega) | exact some_lt (by omega)

private theorem compare_finite_left (cf : Canonical format (.finite s m e hm))
    (rf : InRange format (.finite s m e hm)) : (UnpackedFloat.finite s m e hm).compare g =
      some (compare (signedWeight format (.finite s m e hm)) (signedWeight format g)) := by
  have h := weight_finite_lt (t := .positive) cf rf
  have htop : weight format (.infinity .negative) = weight format (.infinity .positive) := rfl
  have hzero (t : Sign) : weight format (.zero t) = 0 := rfl
  cases g with
  | notANumber => simp [isNaN] at hg
  | zero t =>
    cases s <;> cases t <;> simp only [UnpackedFloat.compare, signedWeight, Sign.apply, hzero] <;>
      first | exact some_gt (by omega) | exact some_lt (by omega)
  | infinity t =>
    cases s <;> cases t <;> simp only [UnpackedFloat.compare, signedWeight, Sign.apply] <;>
      first | exact some_gt (by omega) | exact some_lt (by omega)
  | finite t n b hn =>
    -- only equal signs leave it to exponents and mantissas
    have h' := weight_finite_lt (t := .positive) cg.1 cg.2
    cases s <;> cases t <;> simp only [UnpackedFloat.compare, signedWeight, Sign.apply]
    · rw [compare_finite cf cg.1, compare_neg_natCast]
    · exact some_lt (by omega)
    · exact some_gt (by omega)
    · rw [compare_finite cf cg.1, compare_natCast]

/-- Canonical numbers compare as their weights do. -/
theorem compare_eq_some {f : UnpackedFloat} (hf : f.isNaN = false)
    (cf : Canonical format f ∧ InRange format f) :
    f.compare g = some (compare (signedWeight format f) (signedWeight format g)) := by
  cases f with
  | notANumber => simp [isNaN] at hf
  | zero s => exact compare_zero hg cg
  | infinity s => exact compare_infinity hg cg
  | finite s m e hm => exact compare_finite_left hg cg cf.1 cf.2

end

/-! ## Weights of words -/

private theorem toNat_unpackMantissa {format : Format} (b : BitVec format.numBits) :
    (unpackMantissa b).toNat = b.toNat % 2 ^ format.mantissaBitsWithoutImplicit := by
  have h : format.mantissaBitsWithoutImplicit - 1 - 0 + 1 = format.mantissaBitsWithoutImplicit := by
    have := format.hm
    omega
  rw [unpackMantissa, BitVec.toNat_cast, BitVec.extractLsb_toNat, Nat.shiftRight_zero, h]

private theorem toNat_unpackExponent {format : Format} (b : BitVec format.numBits) :
    (unpackExponent b).toNat =
      b.toNat / 2 ^ format.mantissaBitsWithoutImplicit % 2 ^ format.exponentBits := by
  have h : format.mantissaBitsWithoutImplicit + format.exponentBits - 1
      - format.mantissaBitsWithoutImplicit + 1 = format.exponentBits := by
    have := format.he
    omega
  rw [unpackExponent, BitVec.toNat_cast, BitVec.extractLsb_toNat, Nat.shiftRight_eq_div_pow, h]

private theorem toNat_unpackSign {format : Format} (b : BitVec format.numBits) :
    (unpackSign b).toNat = b.toNat / 2 ^ format.mantissaBitsWithoutImplicit
      / 2 ^ format.exponentBits := by
  have hlt : b.toNat / 2 ^ (format.mantissaBitsWithoutImplicit + format.exponentBits) < 2 := by
    rw [Nat.div_lt_iff_lt_mul (Nat.two_pow_pos _), ← Nat.pow_succ']
    exact Nat.lt_of_lt_of_le b.isLt (Nat.pow_le_pow_right (by decide) (by
      unfold Format.numBits; omega))
  rw [unpackSign, BitVec.toNat_cast, BitVec.extractLsb_toNat, Nat.shiftRight_eq_div_pow,
    Nat.sub_self, Nat.pow_one, Nat.mod_eq_of_lt hlt, Nat.div_div_eq_div_mul, ← Nat.pow_add]

/-- The weight of a word is its pattern without the sign. -/
theorem signedWeight_unpack {format : Format} {b : BitVec format.numBits}
    (h : (unpack format b).isNaN = false) :
    signedWeight format (unpack format b) =
      (Sign.ofBitVec (unpackSign b)).apply ((unpackMantissa b).toNat
        + (unpackExponent b).toNat * 2 ^ format.mantissaBitsWithoutImplicit : Nat) := by
  have hmin := minExponent_eq format
  revert h
  unfold unpack
  dsimp only
  split
  · rename_i hones
    split
    · rename_i hzero
      intro _
      rw [hones, hzero, toNat_ones]
      simp [signedWeight, weight]
    · intro h
      simp [isNaN] at h
  split
  · rename_i hexp
    split
    · rename_i hzero
      intro _
      rw [hexp, hzero]
      simp [signedWeight, weight]
    · intro _
      rw [hexp]
      simp only [signedWeight, weight]
      congr 2
      simp only [BitVec.toNat_ofNat, Nat.zero_mod]
      rw [show ((0 : Nat) : Int) - _ + 1 - format.minExponent = 0 by omega]
      simp
  · rename_i hexp
    intro _
    have hpos : (unpackExponent b).toNat ≠ 0 := fun h =>
      hexp (BitVec.eq_of_toNat_eq (by rw [h]; simp))
    obtain ⟨k, hk⟩ := Nat.exists_eq_succ_of_ne_zero hpos
    simp only [signedWeight, weight]
    congr 2
    rw [toNat_one_append, hk]
    rw [show ((k.succ : Nat) : Int) - _ - format.minExponent = k by omega, Int.toNat_natCast,
      Nat.succ_mul]
    omega

/-! ## Ranks of binary64 numbers -/

/-- The pattern of a number as a magnitude with a sign. -/
def rank (x : Float) : Int :=
  if x.toBits.toNat < 2 ^ 63 then x.toBits.toNat else 2 ^ 63 - x.toBits.toNat

theorem signedWeight_exact {x : Float} (h : x.isNaN = false) :
    signedWeight .binary64 (exact x) = rank x := by
  generalize hb : x.toBits.toBitVec = b
  have hn : x.toBits.toNat = b.toNat := by rw [← hb]; rfl
  have hm := @toNat_unpackMantissa .binary64 b
  have he := @toNat_unpackExponent .binary64 b
  have hs := @toNat_unpackSign .binary64 b
  simp only [Format.binary64] at hm he hs
  have hweight : signedWeight .binary64 (exact x) = _ :=
    @signedWeight_unpack .binary64 x.toBits.toBitVec h
  rw [hweight, hb, hm, he, rank, hn, show Format.binary64.mantissaBitsWithoutImplicit = 52 from rfl]
  rcases BitVec.eq_zero_or_eq_one (@unpackSign .binary64 b) with hsign | hsign
  · rw [hsign, show (0#1).toNat = 0 from rfl] at hs
    rw [hsign, if_pos (by omega), show Sign.ofBitVec 0#1 = .positive from rfl, Sign.apply]
    omega
  · rw [hsign, show (1#1).toNat = 1 from rfl] at hs
    rw [hsign, if_neg (by omega), show Sign.ofBitVec 1#1 = .negative from rfl, Sign.apply]
    omega

theorem isNaN_iff_eq {f : UnpackedFloat} : f.isNaN = true ↔ f = .notANumber := by
  cases f <;> simp [isNaN]

theorem isNaN_of_isFinite {f : UnpackedFloat} (h : f.isFinite = true) : f.isNaN = false := by
  cases f <;> first | rfl | cases h

theorem isNaN_iff {x : Float} : x.isNaN = true ↔ exact x = .notANumber :=
  isNaN_iff_eq (f := exact x)

theorem compare_exact {x y : Float} (hx : x.isNaN = false) (hy : y.isNaN = false) :
    (exact x).compare (exact y) = some (compare (rank x) (rank y)) := by
  have wide : 1 < Format.binary64.exponentBits := by decide
  rw [← signedWeight_exact hx, ← signedWeight_exact hy]
  exact compare_eq_some hy (canonical_unpack wide _) hx (canonical_unpack wide _)

private theorem le_iff_exact {x y : Float} : x ≤ y ↔ (exact x).le (exact y) = true := by
  simp only [LE.le, Float.le, Float.Model.le]
  exact decide_eq_true_iff

private theorem lt_iff_exact {x y : Float} : x < y ↔ (exact x).lt (exact y) = true := by
  simp only [LT.lt, Float.lt, Float.Model.lt]
  exact decide_eq_true_iff

theorem le_iff_rank {x y : Float} (hx : x.isNaN = false) (hy : y.isNaN = false) :
    x ≤ y ↔ rank x ≤ rank y := by
  rw [le_iff_exact, UnpackedFloat.le, compare_exact hx hy, Option.any_some, Std.isLE_compare]

theorem lt_iff_rank {x y : Float} (hx : x.isNaN = false) (hy : y.isNaN = false) :
    x < y ↔ rank x < rank y := by
  rw [lt_iff_exact, UnpackedFloat.lt, compare_exact hx hy, beq_iff_eq, Option.some_inj,
    compare_lt_iff_lt]

theorem not_le_iff {x y : Float} (hx : x.isNaN = false) (hy : y.isNaN = false) :
    ¬ x ≤ y ↔ y < x := by
  rw [le_iff_rank hx hy, lt_iff_rank hy hx, Int.not_le]

theorem beq_iff_rank {x y : Float} (hx : x.isNaN = false) (hy : y.isNaN = false) :
    (x == y) = true ↔ rank x = rank y := by
  have h : (x == y) = (exact x).beq (exact y) := rfl
  rw [h, UnpackedFloat.beq, compare_exact hx hy, beq_iff_eq, Option.some_inj, compare_eq_iff_eq]

private theorem compare_eq_none {f g : UnpackedFloat} (h : f.isNaN = true ∨ g.isNaN = true) :
    f.compare g = none := by
  rcases h with h | h
  · rw [isNaN_iff_eq.mp h]
    rfl
  · rw [isNaN_iff_eq.mp h]
    cases f with
    | infinity s => cases s <;> rfl
    | finite s m e hm => cases s <;> rfl
    | _ => rfl

/-- Only numbers compare. -/
theorem numbers_of_compare {f g : UnpackedFloat} (h : f.compare g ≠ none) :
    f.isNaN = false ∧ g.isNaN = false :=
  ⟨Bool.eq_false_iff.mpr fun hf => h (compare_eq_none (.inl hf)),
    Bool.eq_false_iff.mpr fun hg => h (compare_eq_none (.inr hg))⟩

/-- Only numbers are ordered. -/
theorem numbers_of_le {x y : Float} (h : x ≤ y) : x.isNaN = false ∧ y.isNaN = false := by
  refine numbers_of_compare (f := exact x) (g := exact y) fun hnone => ?_
  rw [le_iff_exact, UnpackedFloat.le, hnone] at h
  exact Bool.false_ne_true h

theorem numbers_of_lt {x y : Float} (h : x < y) : x.isNaN = false ∧ y.isNaN = false := by
  refine numbers_of_compare (f := exact x) (g := exact y) fun hnone => ?_
  rw [lt_iff_exact, UnpackedFloat.lt, hnone] at h
  exact Bool.false_ne_true h

/-- Only numbers are equal to something. -/
theorem numbers_of_beq {x y : Float} (h : (x == y) = true) :
    x.isNaN = false ∧ y.isNaN = false := by
  refine numbers_of_compare (f := exact x) (g := exact y) fun hnone => ?_
  have hbeq : (exact x).beq (exact y) = true := h
  rw [UnpackedFloat.beq, hnone] at hbeq
  exact Bool.false_ne_true hbeq

theorem eq_of_toBits_eq {x y : Float} (h : x.toBits = y.toBits) : x = y := by
  obtain ⟨⟨b, _⟩⟩ := x
  obtain ⟨⟨b', _⟩⟩ := y
  obtain rfl : b = b' := h
  rfl

/-- Numbers of one rank are equal, unless they are zeros. -/
theorem eq_of_rank_eq {x y : Float} (h : rank x = rank y) (hne : rank y ≠ 0) : x = y := by
  have hlt := x.toBits.toNat_lt
  have hlt' := y.toBits.toNat_lt
  refine eq_of_toBits_eq (UInt64.toNat_inj.mp ?_)
  rw [rank, rank] at h
  rw [rank] at hne
  split at h <;> split at h <;> split at hne <;> omega

/-! ## The total order -/

private theorem toNat_orderKey (x : Float) :
    (orderKey x).toNat =
      if x.toBits.toNat < 2 ^ 63 then x.toBits.toNat + 2 ^ 63
      else 2 ^ 64 - 1 - x.toBits.toNat := by
  have hlt := x.toBits.toNat_lt
  have htop : (0x8000000000000000 : UInt64).toNat = 2 ^ 63 := rfl
  rw [orderKey]
  simp only [UInt64.lt_iff_toNat_lt, htop]
  by_cases h : x.toBits.toNat < 2 ^ 63
  · rw [if_pos h, if_pos h, UInt64.toNat_or, htop, Nat.or_two_pow_eq_add_of_lt h]
  · rw [if_neg h, if_neg h, UInt64.toNat_not, UInt64.size]
    omega

/-- The key of the total order sorts numbers as their ranks do, but that negative zero comes before
positive zero. -/
theorem orderKey_le_iff {x y : Float} : orderKey x ≤ orderKey y ↔
    rank x ≤ rank y ∧ ¬ (x.toBits = (0 : Float).toBits ∧ y.toBits = (-0.0 : Float).toBits) := by
  have hpositive : (0 : Float).toBits.toNat = 0 := by decide
  have hnegative : (-0.0 : Float).toBits.toNat = 2 ^ 63 := by decide
  have hlt := x.toBits.toNat_lt
  have hlt' := y.toBits.toNat_lt
  have hkx := toNat_orderKey x
  have hky := toNat_orderKey y
  rw [UInt64.le_iff_toNat_le, rank, rank, ← UInt64.toNat_inj, ← UInt64.toNat_inj, hpositive,
    hnegative]
  by_cases h : x.toBits.toNat < 2 ^ 63 <;> by_cases h' : y.toBits.toNat < 2 ^ 63 <;>
    simp only [h, h', if_true, if_false] at hkx hky ⊢ <;> omega

end Animatic.Number
