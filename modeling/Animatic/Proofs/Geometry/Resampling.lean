import Animatic.Proofs.Geometry.Reconcile
import Animatic.Proofs.Number.Multiples

/-!
# Resampled loops

A loop with another number of points keeps its ends. Its new points are blends of neighbours of the
loop, which are all there, and are met in the order of the loop. That holds for loops of any size,
whatever is rounded on the way.

* `samplePlace`, `sampleIndex`, `sampleShare`: where a new point falls.
* `sampleIndex_mono`: new points fall behind each other.
* `Resampled`: what a loop with another number of points is.
* `resample_resampled`: every loop is resampled that way.
-/

namespace Animatic

open Number

variable {loop : List Point} {count : ℕ}

/-! ## Places -/

/-- Where point `i` of a loop with another number of points falls, in edges of the loop. -/
def samplePlace (loop : List Point) (count i : ℕ) : Float :=
  Float.ofNat i * (Float.ofNat (loop.length - 1) / Float.ofNat (count - 1))

/-- The point of the loop that the place is behind, or the last one that has another behind it. -/
def sampleIndex (loop : List Point) (count i : ℕ) : ℕ :=
  min (truncWithin longLimit (exact (samplePlace loop count i))) (loop.length - 2)

/-- How far along the edge behind that point the place is. -/
def sampleShare (loop : List Point) (count i : ℕ) : Float32 :=
  narrow (samplePlace loop count i - Float.ofNat (sampleIndex loop count i))

/-- There is an edge behind the point that a new one falls behind. -/
theorem sampleIndex_lt (hloop : 2 ≤ loop.length) (count i : ℕ) :
    sampleIndex loop count i + 1 < loop.length := by
  have hle : sampleIndex loop count i ≤ loop.length - 2 := Nat.min_le_right _ _
  omega

/-- New points fall behind each other. -/
theorem sampleIndex_mono (loop : List Point) (count : ℕ) : Monotone (sampleIndex loop count) :=
  fun _ _ hij => min_le_min_right _ (truncWithin_mul_mono (nonneg_ofNat _) (ofNat_le_ofNat hij) _)

/-- A new point falls on an edge, where no number of points has to be rounded. -/
theorem isShare_sampleShare (hloop : 2 ≤ loop.length) (hlength : loop.length ≤ 2 ^ 53)
    (hcount : count ≤ 2 ^ 53) {i : ℕ} (hi : i + 1 < count) :
    IsShare (exact32 (sampleShare loop count i)) := by
  obtain ⟨hfinite, hzero, htop⟩ := @place_bounds (loop.length - 1) (count - 1) i (by omega)
    (by omega) (by omega) (by omega)
  have hshare := isShare_place (by omega) (by omega) hfinite hzero htop
  rwa [Nat.sub_sub] at hshare

/-- A new point is the blend of the points at both ends of the edge that it falls on. -/
theorem resampledPoint_eq {p q : Point} {i : ℕ} (hp : loop[sampleIndex loop count i]? = some p)
    (hq : loop[sampleIndex loop count i + 1]? = some q) :
    resampledPoint loop (Float.ofNat (loop.length - 1) / Float.ofNat (count - 1)) i =
      p.blend q (sampleShare loop count i) := by
  have hpoint : resampledPoint loop (Float.ofNat (loop.length - 1) / Float.ofNat (count - 1)) i =
      (loop.getD (sampleIndex loop count i) .origin).blend
        (loop.getD (sampleIndex loop count i + 1) .origin) (sampleShare loop count i) := rfl
  rw [hpoint, List.getD_eq_getElem?_getD, List.getD_eq_getElem?_getD, hp, hq]
  rfl

/-! ## Loops -/

/-- What a loop with another number of points is. -/
structure Resampled (loop : List Point) (count : ℕ) (sampled : List Point) : Prop where
  length : sampled.length = count
  first : sampled.head? = loop.head?
  last : 2 ≤ count → sampled.getLast? = loop.getLast?
  same : loop.length = count → sampled = loop
  single : ∀ point, loop = [point] → sampled = List.replicate count point
  /-- A point between the ends is a blend of neighbours. -/
  inner : 2 ≤ loop.length → loop.length ≠ count → ∀ i, 0 < i → i + 1 < count → ∃ p q,
    loop[sampleIndex loop count i]? = some p ∧ loop[sampleIndex loop count i + 1]? = some q ∧
      sampled[i]? = some (p.blend q (sampleShare loop count i))
  ordered : Monotone (sampleIndex loop count)
  /-- The blend is by a share from zero to one, where no number of points has to be rounded. -/
  share : 2 ≤ loop.length → loop.length ≤ 2 ^ 53 → count ≤ 2 ^ 53 →
    ∀ i, i + 1 < count → IsShare (exact32 (sampleShare loop count i))

/-- A loop with one point is the first point of the loop. -/
private theorem exists_resample_one (hloop : loop ≠ []) :
    ∃ first, loop.head? = some first ∧ resample loop 1 = [first] := by
  match loop with
  | [] => exact absurd rfl hloop
  | [first] => exact ⟨first, rfl, rfl⟩
  | first :: second :: rest => exact ⟨first, rfl, by simp [resample]⟩

/-- The points between the ends of a loop with another number of points. -/
private theorem getElem?_resample (hloop : 2 ≤ loop.length) (hcount : loop.length ≠ count) {i : ℕ}
    (hpos : 0 < i) (hi : i + 1 < count) : (resample loop count)[i]? = some (resampledPoint loop
      (Float.ofNat (loop.length - 1) / Float.ofNat (count - 1)) i) := by
  have hne : loop ≠ [] := List.length_pos_iff.mp (by omega)
  obtain ⟨k, rfl⟩ := Nat.exists_eq_succ_of_ne_zero hpos.ne'
  have htwo : 2 ≤ count := by omega
  obtain ⟨hsame, -⟩ | ⟨point, rfl, -⟩ | ⟨_, _, _, -, h⟩ := resample_cases hne htwo
  · exact absurd hsame hcount
  · exact absurd hloop (by simp)
  · rw [h, List.getElem?_cons_succ, List.getElem?_append_left (by simp; omega), List.getElem?_map,
      List.getElem?_range (by omega), Option.map_some]

/-- A loop gets any positive number of points by keeping its ends and blending neighbours. -/
theorem resample_resampled (hloop : loop ≠ []) (hcount : 1 ≤ count) :
    Resampled loop count (resample loop count) where
  length := by
    obtain rfl | hcount := Nat.eq_or_lt_of_le hcount
    · obtain ⟨first, -, hone⟩ := exists_resample_one hloop
      rw [hone, List.length_singleton]
    · exact length_resample hloop hcount
  first := by
    obtain rfl | hcount := Nat.eq_or_lt_of_le hcount
    · obtain ⟨first, hfirst, hone⟩ := exists_resample_one hloop
      rw [hone, hfirst, List.head?_cons]
    · exact (ends_resample hloop hcount).1
  last hcount := (ends_resample hloop hcount).2
  same h := by
    unfold resample
    rw [if_neg (by omega), if_pos h]
  single := by
    rintro point rfl
    unfold resample
    rw [if_neg (by omega)]
    split
    · rename_i h
      rw [← h]
      rfl
    · rfl
  inner hloop hlength i hpos hi := by
    have hlt := sampleIndex_lt hloop count i
    have hp := List.getElem?_eq_getElem (Nat.lt_of_succ_lt hlt)
    have hq := List.getElem?_eq_getElem hlt
    refine ⟨_, _, hp, hq, ?_⟩
    rw [getElem?_resample hloop hlength hpos hi, resampledPoint_eq hp hq]
  ordered := sampleIndex_mono loop count
  share hloop hlength hcount _ hi := isShare_sampleShare hloop hlength hcount hi

/-- Two edges at a right angle. -/
def cornerLoop : List Point := [⟨0, 0⟩, ⟨2, 0⟩, ⟨2, 2⟩]

/-- Both edges of a corner get their middle. -/
theorem resample_cornerLoop : cornerLoop ≠ [] ∧ 1 ≤ 5 ∧
    Resampled cornerLoop 5 (resample cornerLoop 5) ∧
    List.zipWith Point.same (resample cornerLoop 5)
        [⟨0, 0⟩, ⟨1, 0⟩, ⟨2, 0⟩, ⟨2, 1⟩, ⟨2, 2⟩] =
      List.replicate 5 true :=
  ⟨List.cons_ne_nil _ _, by decide, resample_resampled (List.cons_ne_nil _ _) (by decide),
    by decide +kernel⟩

end Animatic
