import Animatic.Number.Exact
import Mathlib

/-!
# Canonical forms

A format keeps each value in one form: with all digits it has, or with its least exponent. Packing a
value in that form and unpacking it again loses nothing but an exponent that is too large.

* `canonical_unpack`: what is read from a word is canonical and in range.
* `unpack_pack`, `unpack_pack_overflow`: what a word keeps of a canonical value.
* `isNaN_unpack_pack`: packing neither makes nor hides what is not a number.
-/

namespace Animatic.Number

open Float.Model (Format UnpackedFloat)
open Float.Model.UnpackedFloat

/-- The largest exponent of a finite number. -/
def maxExponent (format : Format) : Int := format.minExponent + 2 ^ format.exponentBits - 3

/-- The form in which a format keeps a value: with all its digits, or with its least exponent. -/
def Canonical (format : Format) : UnpackedFloat → Prop
  | .finite _ m e _ =>
    m < 2 ^ format.mantissaBits ∧ format.minExponent ≤ e ∧
      (2 ^ format.mantissaBitsWithoutImplicit ≤ m ∨ e = format.minExponent)
  | _ => True

/-- Whether the exponent of a value is one of a format. -/
def InRange (format : Format) : UnpackedFloat → Prop
  | .finite _ _ e _ => e ≤ maxExponent format
  | _ => True

/-! ## The constants of a format -/

theorem two_pow_mantissaBits (format : Format) :
    2 ^ format.mantissaBits = 2 * 2 ^ format.mantissaBitsWithoutImplicit := by
  rw [Format.mantissaBits, Nat.pow_add]

theorem two_pow_exponentBits (format : Format) :
    2 ^ format.exponentBits = 2 * format.exponentBias + 2 := by
  have h : format.exponentBits = format.exponentBits - 1 + 1 := by have := format.he; omega
  have hpos := Nat.two_pow_pos (format.exponentBits - 1)
  unfold Format.exponentBias
  rw [h, Nat.pow_succ, ← h]
  omega

theorem minExponent_eq (format : Format) :
    format.minExponent =
      1 - (format.exponentBias : Int) - format.mantissaBitsWithoutImplicit := by
  have hpos := Nat.two_pow_pos (format.exponentBits - 1)
  have hc : ((2 ^ (format.exponentBits - 1) : Nat) : Int) = 2 ^ (format.exponentBits - 1) := by
    push_cast; rfl
  unfold Format.minExponent Format.exponentBias Format.mantissaBits
  omega

theorem maxExponent_eq (format : Format) :
    maxExponent format = (format.exponentBias : Int) - format.mantissaBitsWithoutImplicit := by
  have h := two_pow_exponentBits format
  have hc : ((2 ^ format.exponentBits : Nat) : Int) = 2 ^ format.exponentBits := by push_cast; rfl
  rw [maxExponent, minExponent_eq]
  omega

/-! ## The fields of a word -/

private theorem ne_of_toNat_ne {n : Nat} {a b : BitVec n} (h : a.toNat ≠ b.toNat) : a ≠ b :=
  fun e => h (congrArg BitVec.toNat e)

/-- The mantissa of a normal number, with its leading digit. -/
theorem toNat_one_append {n : Nat} (b : BitVec n) : (1#1 ++ b).toNat = 2 ^ n + b.toNat := by
  have hone : (1#1).toNat = 1 := rfl
  rw [BitVec.toNat_append, hone, Nat.one_shiftLeft, Nat.or_comm,
    Nat.or_two_pow_eq_add_of_lt b.isLt, Nat.add_comm]

theorem toNat_ones (n : Nat) : (-1#n).toNat = 2 ^ n - 1 := by
  rw [BitVec.neg_one_eq_allOnes, BitVec.toNat_allOnes]

theorem zero_ne_ones (format : Format) : (0#_ : BitVec format.exponentBits) ≠ -1#_ := by
  have hpos : 2 ^ 1 ≤ 2 ^ format.exponentBits := Nat.pow_le_pow_right (by decide) format.he
  apply ne_of_toNat_ne
  rw [toNat_ones, BitVec.toNat_ofNat, Nat.zero_mod]
  omega

/-- An exponent field that is neither all zeros nor all ones holds what was put into it. -/
private theorem exponentField {format : Format} {E : Nat} (hpos : 0 < E)
    (hlt : E + 1 < 2 ^ format.exponentBits) :
    (BitVec.ofNat format.exponentBits E).toNat = E ∧
      BitVec.ofNat format.exponentBits E ≠ -1#_ ∧ BitVec.ofNat format.exponentBits E ≠ 0#_ := by
  have h : (BitVec.ofNat format.exponentBits E).toNat = E := by
    rw [BitVec.toNat_ofNat, Nat.mod_eq_of_lt (by omega)]
  refine ⟨h, ne_of_toNat_ne ?_, ne_of_toNat_ne ?_⟩
  · rw [h, toNat_ones]; omega
  · rw [h, BitVec.toNat_ofNat, Nat.zero_mod]; omega

/-! ## Reading and keeping -/

theorem canonical_unpack {format : Format} (wide : 1 < format.exponentBits)
    (b : BitVec format.numBits) :
    Canonical format (unpack format b) ∧ InRange format (unpack format b) := by
  have hwide : 2 ^ 2 ≤ 2 ^ format.exponentBits := Nat.pow_le_pow_right (by decide) wide
  have hM := (unpackMantissa b).isLt
  have hE := (unpackExponent b).isLt
  have hp := two_pow_mantissaBits format
  have hq := two_pow_exponentBits format
  have hmin := minExponent_eq format
  have hmax := maxExponent_eq format
  unfold unpack
  dsimp only
  split
  · split <;> exact ⟨trivial, trivial⟩
  rename_i hones
  have htop : (unpackExponent b).toNat ≠ 2 ^ format.exponentBits - 1 := fun h =>
    hones (BitVec.eq_of_toNat_eq (by rw [h, toNat_ones]))
  split
  · rename_i hzero
    split
    · exact ⟨trivial, trivial⟩
    · simp only [Canonical, InRange, hzero, BitVec.toNat_ofNat, Nat.zero_mod]
      omega
  · rename_i hnonzero
    have hpos : (unpackExponent b).toNat ≠ 0 := fun h =>
      hnonzero (BitVec.eq_of_toNat_eq (by rw [h]; simp))
    simp only [Canonical, InRange, toNat_one_append]
    omega

/-- A canonical value in range is kept. -/
theorem unpack_pack {format : Format} {f : UnpackedFloat} (hc : Canonical format f)
    (hr : InRange format f) : unpack format (pack format f) = f := by
  have hp := two_pow_mantissaBits format
  have hq := two_pow_exponentBits format
  have hmin := minExponent_eq format
  have hmax := maxExponent_eq format
  have hzero := zero_ne_ones format
  cases f with
  | notANumber => exact unpack_packedNaN
  | infinity s => simp [pack, packedInfinity, unpack]
  | zero s => exact unpack_packedZero
  | finite s m e hm =>
    obtain ⟨hlt, hle, hfull⟩ := hc
    simp only [InRange] at hr
    obtain ⟨E, hE⟩ : ∃ E : Nat, e + format.exponentBias + format.mantissaBitsWithoutImplicit = E :=
      ⟨_, (Int.toNat_of_nonneg (by omega)).symm⟩
    obtain ⟨hEnat, hEones, hEzero⟩ := @exponentField format E (by omega) (by omega)
    simp only [pack, hE, Int.toNat_natCast, if_neg (by omega : ¬ 2 ^ format.exponentBits ≤ E + 1)]
    by_cases hnormal : 2 ^ format.mantissaBitsWithoutImplicit ≤ m
    -- a normal number: the word leaves the leading digit out, and reading adds it
    · have hlog : m.log2 = format.mantissaBitsWithoutImplicit :=
        (Nat.log2_eq_iff hm.ne').mpr ⟨hnormal, by rw [Nat.pow_succ]; omega⟩
      have hm' : 2 ^ format.mantissaBitsWithoutImplicit
          + m % 2 ^ format.mantissaBitsWithoutImplicit = m := by
        rw [Nat.mod_eq_sub_mod hnormal, Nat.mod_eq_of_lt (by omega)]
        omega
      rw [if_pos (by rw [hlog, Format.mantissaBits, Nat.add_comm])]
      simp only [unpack, unpackMantissa_packComponents, unpackExponent_packComponents,
        unpackSign_packComponents, Sign.ofBitVec_toBitVec, hEones, hEzero, if_false,
        toNat_one_append, BitVec.toNat_ofNat, hm', hEnat]
      congr 1
      omega
    -- a subnormal number: its exponent is the least one and is kept as zero
    · have hsmall := hfull.resolve_left hnormal
      have hlog := (Nat.log2_lt hm.ne').mpr (Nat.not_le.mp hnormal)
      have hm' : (BitVec.ofNat format.mantissaBitsWithoutImplicit m).toNat = m := by
        rw [BitVec.toNat_ofNat, Nat.mod_eq_of_lt (by omega)]
      have hne : BitVec.ofNat format.mantissaBitsWithoutImplicit m ≠ 0#_ :=
        ne_of_toNat_ne (by rw [hm', BitVec.toNat_ofNat, Nat.zero_mod]; omega)
      rw [if_neg (by rw [Format.mantissaBits]; omega)]
      simp only [unpack, unpackMantissa_packComponents, unpackExponent_packComponents,
        unpackSign_packComponents, Sign.ofBitVec_toBitVec, hzero, if_false, if_true, hne,
        dite_false, hm', BitVec.toNat_ofNat, Nat.zero_mod]
      congr 1
      omega

/-- A canonical value beyond the range becomes infinite. -/
theorem unpack_pack_overflow {format : Format} {s : Sign} {m : Nat} {e : Int} {hm : 0 < m}
    (h : maxExponent format < e) :
    unpack format (pack format (.finite s m e hm)) = .infinity s := by
  have hq := two_pow_exponentBits format
  have hmax := maxExponent_eq format
  have hbig : 2 ^ format.exponentBits
      ≤ (e + format.exponentBias + format.mantissaBitsWithoutImplicit).toNat + 1 := by omega
  simp [pack, hbig, packedInfinity, unpack]

/-- Keeping a value neither makes nor hides what is not a number. -/
theorem isNaN_unpack_pack (format : Format) (f : UnpackedFloat) :
    (unpack format (pack format f)).isNaN = f.isNaN := by
  have hzero := zero_ne_ones format
  cases f with
  | notANumber => rw [pack, unpack_packedNaN]
  | infinity s => simp [pack, packedInfinity, unpack, isNaN]
  | zero s => rw [pack, unpack_packedZero]
  | finite s m e hm =>
    generalize hE : (e + format.exponentBias + format.mantissaBitsWithoutImplicit).toNat = E
    by_cases hbig : 2 ^ format.exponentBits ≤ E + 1
    · simp [pack, hE, hbig, packedInfinity, unpack, isNaN]
    have hones : BitVec.ofNat format.exponentBits E ≠ -1#_ := by
      apply ne_of_toNat_ne
      rw [BitVec.toNat_ofNat, Nat.mod_eq_of_lt (by omega), toNat_ones]
      omega
    simp only [pack, hE, if_neg hbig]
    split
    · simp only [unpack, unpackExponent_packComponents, hones, if_false]
      split <;> (try split) <;> rfl
    · simp only [unpack, unpackExponent_packComponents, hzero, if_false, if_true]
      split <;> rfl

end Animatic.Number
