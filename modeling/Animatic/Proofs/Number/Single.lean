import Animatic.Proofs.Number.Comparison
import Animatic.Proofs.Number.Whole

/-!
# Binary32 numbers

Numbers of the shorter format are ordered as integers are, too, and changing or dropping a sign does
to the integer what it says.

* `rank32`, `le32_iff_rank`, `lt32_iff_rank`: the comparisons compare ranks.
* `rank32_neg`, `rank32_abs`: signs.
* `isNaN32_mul`, `isNaN32_add`: sums and products that are numbers.
* `one_le_ofNat32`: a positive whole number is converted to one or more.
-/

namespace Animatic.Number

open Float.Model (Format UnpackedFloat)
open Float.Model.UnpackedFloat

variable {x y z : Float32} {f g : UnpackedFloat}

/-! ## Order -/

/-- The pattern of a number as a magnitude with a sign. -/
def rank32 (x : Float32) : Int := signedWeight .binary32 (exact32 x)

theorem isNaN32_iff : x.isNaN = true ↔ exact32 x = .notANumber :=
  isNaN_iff_eq (f := exact32 x)

theorem isNaN32_eq_false : x.isNaN = false ↔ exact32 x ≠ .notANumber := by
  rw [← Bool.not_eq_true, isNaN32_iff]

theorem isNaN32_of_isFinite (hx : (exact32 x).isFinite = true) : x.isNaN = false :=
  isNaN_of_isFinite (f := exact32 x) hx

theorem inRange_exact32 (x : Float32) : InRange .binary32 (exact32 x) :=
  (canonical_unpack wide32 _).2

theorem unpack_pack_exact32 (x : Float32) :
    unpack .binary32 (pack .binary32 (exact32 x)) = exact32 x :=
  unpack_pack (canonical_exact32 x) (inRange_exact32 x)

private theorem compare_exact32 (hx : x.isNaN = false) (hy : y.isNaN = false) :
    (exact32 x).compare (exact32 y) = some (compare (rank32 x) (rank32 y)) :=
  compare_eq_some hy (canonical_unpack wide32 _) hx (canonical_unpack wide32 _)

private theorem le32_iff_exact : x ≤ y ↔ (exact32 x).le (exact32 y) = true := by
  simp only [LE.le, Float32.le, Float32.Model.le]
  exact decide_eq_true_iff

private theorem lt32_iff_exact : x < y ↔ (exact32 x).lt (exact32 y) = true := by
  simp only [LT.lt, Float32.lt, Float32.Model.lt]
  exact decide_eq_true_iff

theorem le32_iff_rank (hx : x.isNaN = false) (hy : y.isNaN = false) :
    x ≤ y ↔ rank32 x ≤ rank32 y := by
  rw [le32_iff_exact, UnpackedFloat.le, compare_exact32 hx hy, Option.any_some, Std.isLE_compare]

theorem lt32_iff_rank (hx : x.isNaN = false) (hy : y.isNaN = false) :
    x < y ↔ rank32 x < rank32 y := by
  rw [lt32_iff_exact, UnpackedFloat.lt, compare_exact32 hx hy, beq_iff_eq, Option.some_inj,
    compare_lt_iff_lt]

/-- Only numbers are ordered. -/
theorem numbers_of_le32 (h : x ≤ y) : x.isNaN = false ∧ y.isNaN = false := by
  refine numbers_of_compare (f := exact32 x) (g := exact32 y) fun hnone => ?_
  rw [le32_iff_exact, UnpackedFloat.le, hnone] at h
  exact Bool.false_ne_true h

theorem numbers_of_lt32 (h : x < y) : x.isNaN = false ∧ y.isNaN = false := by
  refine numbers_of_compare (f := exact32 x) (g := exact32 y) fun hnone => ?_
  rw [lt32_iff_exact, UnpackedFloat.lt, hnone] at h
  exact Bool.false_ne_true h

/-- Numbers are equal if their ranks are, and nothing else is. -/
theorem beq32_iff_rank :
    (x == y) = true ↔ x.isNaN = false ∧ y.isNaN = false ∧ rank32 x = rank32 y := by
  have hbeq : (x == y) = (exact32 x).beq (exact32 y) := rfl
  rw [hbeq, UnpackedFloat.beq, beq_iff_eq]
  refine ⟨fun h => ?_, fun ⟨hx, hy, h⟩ => ?_⟩
  · obtain ⟨hx, hy⟩ : x.isNaN = false ∧ y.isNaN = false :=
      numbers_of_compare (f := exact32 x) (g := exact32 y) (by rw [h]; exact Option.some_ne_none _)
    rw [compare_exact32 hx hy, Option.some_inj, compare_eq_iff_eq] at h
    exact ⟨hx, hy, h⟩
  · rw [compare_exact32 hx hy, compare_eq_iff_eq.mpr h]

theorem isNaN32_zero : (0 : Float32).isNaN = false := by decide

theorem rank32_zero : rank32 0 = 0 := by decide

theorem nonneg32_iff_rank (hx : x.isNaN = false) : 0 ≤ x ↔ 0 ≤ rank32 x := by
  rw [le32_iff_rank isNaN32_zero hx, rank32_zero]

theorem pos32_iff_rank (hx : x.isNaN = false) : 0 < x ↔ 0 < rank32 x := by
  rw [lt32_iff_rank isNaN32_zero hx, rank32_zero]

theorem neg32_iff_rank (hx : x.isNaN = false) : x < 0 ↔ rank32 x < 0 := by
  rw [lt32_iff_rank hx isNaN32_zero, rank32_zero]

/-- Only zeros have rank zero. -/
theorem exact32_of_rank32_eq_zero (hx : x.isNaN = false) (h : rank32 x = 0) :
    ∃ s, exact32 x = .zero s := by
  have hcanonical := canonical_exact32 x
  have hrange := inRange_exact32 x
  rw [rank32] at h
  cases hexact : exact32 x with
  | notANumber => exact absurd hexact (isNaN32_eq_false.mp hx)
  | zero s => exact ⟨s, rfl⟩
  | infinity s =>
    rw [hexact] at h
    cases s <;> exact absurd h (by decide)
  | finite s m e hm =>
    rw [hexact] at h hcanonical hrange
    have hweight := (weight_finite_lt (t := .positive) hcanonical hrange).1
    cases s <;> simp only [signedWeight, Sign.apply] at h <;> omega

/-! ## Signs -/

/-- Turning the sign is exact. -/
theorem exact32_neg (x : Float32) : exact32 (-x) = (exact32 x).neg :=
  unpack_pack (canonical_exact32 x).neg (inRange_exact32 x).neg

/-- Dropping the sign is exact. -/
theorem exact32_abs (x : Float32) : exact32 x.abs = (exact32 x).abs := by
  have hcanonical := canonical_exact32 x
  have hrange := inRange_exact32 x
  change unpack .binary32 (pack .binary32 (exact32 x).abs) = _
  cases h : exact32 x with
  | zero | infinity | notANumber => exact unpack_pack trivial trivial
  | finite s m e hm =>
    rw [h] at hcanonical hrange
    exact unpack_pack hcanonical hrange

@[simp] theorem isNaN32_neg (x : Float32) : (-x).isNaN = x.isNaN := by
  have h : (-x).isNaN = (exact32 (-x)).isNaN := rfl
  have h' : x.isNaN = (exact32 x).isNaN := rfl
  rw [h, h', exact32_neg]
  cases exact32 x <;> rfl

@[simp] theorem isNaN32_abs (x : Float32) : x.abs.isNaN = x.isNaN := by
  have h : x.abs.isNaN = (exact32 x.abs).isNaN := rfl
  have h' : x.isNaN = (exact32 x).isNaN := rfl
  rw [h, h', exact32_abs]
  cases exact32 x <;> rfl

@[simp] theorem rank32_neg (x : Float32) : rank32 (-x) = -rank32 x := by
  rw [rank32, exact32_neg, signedWeight_neg, rank32]

@[simp] theorem rank32_abs (x : Float32) : rank32 x.abs = |rank32 x| := by
  rw [rank32, exact32_abs, rank32]
  cases exact32 x with
  | notANumber => rfl
  | zero s | infinity s | finite s =>
    cases s with
    | positive => exact (abs_of_nonneg (Int.natCast_nonneg _)).symm
    | negative => exact ((abs_neg _).trans (abs_of_nonneg (Int.natCast_nonneg _))).symm

theorem abs_neg32 (x : Float32) : (-x).abs = x.abs := by
  have h : (-x).abs = ⟨.pack (exact32 (-x)).abs⟩ := rfl
  have h' : x.abs = ⟨.pack (exact32 x).abs⟩ := rfl
  rw [h, h', exact32_neg]
  cases exact32 x <;> rfl

/-- A number that is not negative is not below its opposite. -/
theorem neg_le_self (h : 0 ≤ x) : -x ≤ x := by
  have hx := (numbers_of_le32 h).2
  rw [nonneg32_iff_rank hx] at h
  rw [le32_iff_rank (by rwa [isNaN32_neg]) hx, rank32_neg]
  omega

/-! ## Sums and products -/

theorem exact32_mul (x y : Float32) :
    exact32 (x * y) = unpack .binary32 (pack .binary32 (mul .binary32 (exact32 x) (exact32 y))) :=
  rfl

theorem exact32_add (x y : Float32) :
    exact32 (x + y) = unpack .binary32 (pack .binary32 (add .binary32 (exact32 x) (exact32 y))) :=
  rfl

theorem isNaN32_mul (hx : (exact32 x).isFinite = true) (hy : (exact32 y).isFinite = true) :
    (x * y).isNaN = false := by
  have hword : (x * y).isNaN = (exact32 (x * y)).isNaN := rfl
  rw [hword, exact32_mul, isNaN_unpack_pack]
  exact isNaN_of_isFinite (rounds_mul hx hy (canonical_exact32 x) (canonical_exact32 y)).isFinite

private theorem isNaN_add_of_isFinite (hf : f.isFinite = true) (hg : g.isNaN = false) :
    (add .binary32 f g).isNaN = false := by
  cases f with
  | infinity s => cases hf
  | notANumber => cases hf
  | zero s =>
    cases g with
    | notANumber => cases hg
    | zero t => rw [add]; split <;> rfl
    | infinity t | finite t => rfl
  | finite s m e hm =>
    cases g with
    | notANumber => cases hg
    | zero t | infinity t => rfl
    | finite t m' e' hm' =>
      rw [add]
      exact isNaN_of_isFinite (rounds_normalize _ _ _ _).isFinite

theorem isNaN32_add (hx : (exact32 x).isFinite = true) (hy : y.isNaN = false) :
    (x + y).isNaN = false := by
  have hword : (x + y).isNaN = (exact32 (x + y)).isNaN := rfl
  rw [hword, exact32_add, isNaN_unpack_pack]
  exact isNaN_add_of_isFinite hx hy

/-! ## Whole numbers -/

theorem value_one32 : (exact32 1).isFinite = true ∧ value (exact32 1) = 1 := by
  have hone : exact32 1 = .finite .positive (2 ^ 23) (-23) (by decide) := by rfl
  rw [hone, value, signed]
  exact ⟨rfl, by norm_num⟩

/-- A short whole number is converted by way of a word and a factor of one. -/
private theorem rounds_ofNat32_short {n : ℕ} (hn : n < 2 ^ 23) :
    ∃ f, Rounds .binary32 n f ∧
      exact32 (Float32.ofNat n) = unpack .binary32 (pack .binary32 f) := by
  have hnat : n.toUInt64.toNat = n := by
    rw [UInt64.toNat_ofNat', Nat.mod_eq_of_lt (Nat.lt_trans hn (by decide))]
  have hsmall : |(n : ℚ)| ≤ maxFinite .binary32 := by
    rw [Nat.abs_cast]
    calc (n : ℚ) ≤ 2 ^ 23 := by exact_mod_cast hn.le
      _ ≤ maxFinite .binary32 := two_pow_le_maxFinite (by decide)
  have hword : Rounds .binary32 n (exact32 n.toUInt64.toFloat32) := by
    have hexact : exact32 n.toUInt64.toFloat32 = unpack .binary32
        (pack .binary32 (UnpackedFloat.normalize .binary32 n.toUInt64.toNat 0 .positive)) := rfl
    have hrounds := rounds_normalize .binary32 n 0 .positive
    rw [zpow_zero, mul_one, Int.cast_natCast] at hrounds
    rw [hexact, hnat]
    exact hrounds.word wide32 hsmall
  have hvalue : value (exact32 n.toUInt64.toFloat32) = n :=
    hword.eq (representable_natCast (by decide) (hn.le.trans (by decide)))
  have hproduct := rounds_mul hword.isFinite value_one32.1
    (canonical_exact32 n.toUInt64.toFloat32) (canonical_exact32 1)
  rw [hvalue, value_one32.2, mul_one] at hproduct
  refine ⟨_, hproduct, ?_⟩
  have hbranch : n < 2 ^ 23 ∧ 0 ≤ 10 := ⟨hn, by decide⟩
  have hofNat : Float32.ofNat n = n.toUInt64.toFloat32 * 1 := by
    change Float32.ofScientific n false 0 = _
    rw [Float32.ofScientific, dif_pos hbranch]
    rfl
  rw [hofNat]
  rfl

/-- A long whole number is a mantissa, which is rounded. -/
private theorem rounds_ofNat32_long {n : ℕ} (hn : 2 ^ 23 ≤ n) :
    ∃ f, Rounds .binary32 n f ∧
      exact32 (Float32.ofNat n) = unpack .binary32 (pack .binary32 f) := by
  refine ⟨_, rounds_ofScientific .binary32 n, ?_⟩
  have hlong : ¬ (n < 2 ^ 23 ∧ 0 ≤ 10) := by omega
  change exact32 (Float32.ofScientific n false 0) = _
  rw [Float32.ofScientific, dif_neg hlong]
  rfl

/-- A positive whole number is converted to one or more, or becomes infinite. -/
theorem one_le_ofNat32 {n : ℕ} (hn : 0 < n) :
    exact32 (Float32.ofNat n) = .infinity .positive ∨
      (exact32 (Float32.ofNat n)).isFinite = true ∧ 1 ≤ value (exact32 (Float32.ofNat n)) := by
  obtain ⟨f, hrounds, hexact⟩ : ∃ f, Rounds .binary32 n f ∧
      exact32 (Float32.ofNat n) = unpack .binary32 (pack .binary32 f) := by
    by_cases hshort : n < 2 ^ 23
    · exact rounds_ofNat32_short hshort
    · exact rounds_ofNat32_long (not_lt.mp hshort)
  have hone : 1 ≤ value f := by
    have hrepresentable : Representable .binary32 ((1 : ℕ) : ℚ) :=
      representable_natCast (by decide) Nat.one_le_two_pow
    rw [Nat.cast_one] at hrepresentable
    exact hrounds.le_of_ge 1 hrepresentable (by exact_mod_cast hn)
  rw [hexact]
  obtain ⟨-, hword⟩ | ⟨-, hword⟩ | ⟨hbig, -⟩ :=
    unpack_pack_cases wide32 hrounds.canonical hrounds.isFinite
  · rw [hword]
    exact .inr ⟨hrounds.isFinite, hone⟩
  · exact .inl hword
  · linarith [maxFinite_nonneg .binary32]

end Animatic.Number
