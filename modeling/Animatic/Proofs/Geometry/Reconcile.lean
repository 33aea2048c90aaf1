import Animatic.Proofs.Geometry.Loops
import Animatic.Proofs.Geometry.Sampling

/-!
# Reconciled outlines

What `Outline.reconcile` makes of two outlines: equally many loops on both sides, and equally many
points in paired ones, with the ends of every loop kept.

* `Matched`: how the loops of the results stand to the outlines and to each other.
* `Between`: points with a property, and points between two of them.
* `mem_reconcile`: where the points of the results come from.
* `reconcile_matched`: the results are such loops, joined at the same places, and hold no other
  separator unless a coordinate is infinite.
-/

namespace Animatic

open Number

/-! ## Resampling -/

/-- Points with a property, and those that lie between two of them. -/
def Between (P : Point → Prop) (p : Point) : Prop :=
  P p ∨ ∃ u v t, P u ∧ P v ∧ IsShare (exact32 t) ∧ p = u.blend v t

theorem Between.imp {P Q : Point → Prop} {p : Point} (h : Between P p) (himp : ∀ p, P p → Q p) :
    Between Q p :=
  Or.imp (himp p) (fun ⟨u, v, t, hu, hv, ht⟩ => ⟨u, v, t, himp u hu, himp v hv, ht⟩) h

/-- There is no separator between finite points. -/
theorem Between.not_separator {p : Point} (h : Between Point.Finite p) :
    p.isSeparator = false := by
  rcases h with h | ⟨u, v, t, hu, hv, ht, rfl⟩
  · exact h.not_separator
  · exact blend_not_separator hu hv ht.1 ht.2.1 (ht.2.2.trans one_le_two)

section

variable {loop : List Point} {count : Nat} (hloop : loop ≠ []) (hcount : 2 ≤ count)

include hloop hcount

/-- The ways in which a loop gets its number of points: it has that many, it is a single point that
is repeated, or new points are put between its ends. -/
theorem resample_cases :
    loop.length = count ∧ resample loop count = loop ∨
      (∃ point, loop = [point] ∧ resample loop count = List.replicate count point) ∨
      ∃ first inner last, loop = first :: (inner ++ [last]) ∧
        resample loop count = first :: ((List.range (count - 2)).map (fun i =>
          resampledPoint loop (Float.ofNat (loop.length - 1) / Float.ofNat (count - 1)) (i + 1))
            ++ [last]) := by
  unfold resample
  rw [if_neg (by omega)]
  split
  · exact .inl ⟨‹_›, rfl⟩
  · refine .inr ?_
    split
    · exact absurd rfl hloop
    · exact .inl ⟨_, rfl, rfl⟩
    · rename_i first second rest _
      rw [if_neg (by omega)]
      rcases List.eq_nil_or_concat rest with rfl | ⟨inner, last, rfl⟩
      · exact .inr ⟨first, [], second, rfl, rfl⟩
      · refine .inr ⟨first, second :: inner, last, ?_, ?_⟩
        · rw [List.concat_eq_append]
          rfl
        · rw [List.concat_eq_append, List.getLastD_concat]
          rfl

theorem length_resample : (resample loop count).length = count := by
  rcases resample_cases hloop hcount with ⟨hlength, h⟩ | ⟨point, -, h⟩ | ⟨first, inner, last, -, h⟩
  · rw [h, hlength]
  · rw [h, List.length_replicate]
  · rw [h, List.length_cons, List.length_append, List.length_map, List.length_range,
      List.length_singleton]
    omega

/-- The ends of a loop are kept. -/
theorem ends_resample :
    (resample loop count).head? = loop.head? ∧ (resample loop count).getLast? = loop.getLast? := by
  rcases resample_cases hloop hcount with ⟨-, h⟩ | ⟨point, hpoint, h⟩ | ⟨first, inner, last, hends, h⟩
  · rw [h]
    exact ⟨rfl, rfl⟩
  · obtain ⟨n, rfl⟩ := Nat.exists_eq_succ_of_ne_zero (by omega : count ≠ 0)
    rw [h, hpoint]
    refine ⟨rfl, ?_⟩
    rw [List.replicate_succ', List.getLast?_concat]
    rfl
  · rw [h, hends, ← List.cons_append, ← List.cons_append, List.getLast?_concat,
      List.getLast?_concat]
    exact ⟨rfl, rfl⟩

/-- The points of a loop with another number of points are its own, or lie between two of them. -/
theorem mem_resample (hlength : loop.length ≤ 2 ^ 53) (hcount' : count ≤ 2 ^ 53) {p : Point}
    (hp : p ∈ resample loop count) : Between (· ∈ loop) p := by
  rcases resample_cases hloop hcount with ⟨-, h⟩ | ⟨point, hpoint, h⟩ | ⟨first, inner, last, hends, h⟩
  · rw [h] at hp
    exact .inl hp
  · rw [h] at hp
    obtain rfl := List.eq_of_mem_replicate hp
    rw [hpoint]
    exact .inl (List.mem_singleton_self p)
  · rw [h, List.mem_cons, List.mem_append, List.mem_map, List.mem_singleton] at hp
    have hedges : loop.length = inner.length + 1 + 1 := by
      rw [hends, List.length_cons, List.length_append, List.length_singleton]
    rcases hp with rfl | ⟨i, hi, rfl⟩ | rfl
    · rw [hends]
      exact .inl List.mem_cons_self
    · rw [List.mem_range] at hi
      rw [hedges, Nat.add_sub_cancel]
      exact .inr (resampledPoint_between hedges (by omega) (by omega) (by omega) (by omega))
    · rw [hends]
      exact .inl (List.mem_cons_of_mem first
        (List.mem_append_right inner (List.mem_singleton_self p)))

end

namespace Outline

/-! ## Padding -/

variable {loops : List (List Point)} {loop : List Point} {count : Nat}

theorem length_padLoops (loops : List (List Point)) (count : Nat) :
    (padLoops loops count).length = max loops.length count := by
  rw [padLoops, List.length_append, List.length_replicate]
  omega

theorem getElem?_padLoops {i : Nat} (h : loops[i]? = some loop) :
    (padLoops loops count)[i]? = some loop := by
  obtain ⟨hi, -⟩ := List.getElem?_eq_some_iff.mp h
  rw [padLoops, List.getElem?_append_left hi, h]

/-- A property of all points of the loops, and of the origin, holds of the padded loops. -/
theorem forall_mem_padLoops {P : Point → Prop} (hloops : ∀ loop ∈ loops, ∀ p ∈ loop, P p)
    (horigin : P .origin) : ∀ loop ∈ padLoops loops count, ∀ p ∈ loop, P p := by
  intro loop hloop
  rw [padLoops, List.mem_append] at hloop
  rcases hloop with hloop | hloop
  · exact hloops loop hloop
  · obtain rfl := List.eq_of_mem_replicate hloop
    rw [List.forall_mem_singleton]
    cases hlast : loops.getLast? with
    | none => exact horigin
    | some last =>
      cases hhead : last.head? with
      | none =>
        rw [Option.bind_some, hhead]
        exact horigin
      | some first =>
        rw [Option.bind_some, hhead]
        exact hloops last (List.mem_of_getLast? hlast) first (List.mem_of_head? hhead)

theorem ne_nil_of_mem_padLoops (hloops : ∀ loop ∈ loops, loop ≠ []) :
    ∀ loop ∈ padLoops loops count, loop ≠ [] := by
  intro loop hloop
  rw [padLoops, List.mem_append] at hloop
  rcases hloop with hloop | hloop
  · exact hloops loop hloop
  · obtain rfl := List.eq_of_mem_replicate hloop
    exact List.cons_ne_nil _ _

theorem pointCount_padLoops (loops : List (List Point)) (count : Nat) :
    pointCount (padLoops loops count) = pointCount loops + (count - loops.length) := by
  have hsingle (n : Nat) (anchor : Point) : pointCount (List.replicate n [anchor]) = n := by
    induction n with
    | zero => rfl
    | succ n ih =>
      rw [List.replicate_succ, pointCount_cons, ih, List.length_singleton]
      omega
  have happend (others : List (List Point)) :
      pointCount (loops ++ others) = pointCount loops + pointCount others := by
    induction loops with
    | nil => exact (Nat.zero_add _).symm
    | cons loop rest ih =>
      rw [List.cons_append, pointCount_cons, ih, pointCount_cons, Nat.add_assoc]
  rw [padLoops, happend, hsingle]

theorem length_le_pointCount_of_mem (h : loop ∈ loops) : loop.length ≤ pointCount loops := by
  induction loops with
  | nil => cases h
  | cons first rest ih =>
    rw [pointCount_cons]
    rcases List.mem_cons.mp h with rfl | h
    · exact Nat.le_add_right _ _
    · exact Nat.le_add_left_of_le (ih h)

/-! ## Shares of the budget -/

/-- The share of a part of the points is at most one more than the budget. -/
theorem share_le {budget size total : Nat} (hsize : 0 < size) (hle : size ≤ total)
    (htotal : total < 2 ^ 53) (hpos : 0 < budget) (hbudget : budget < 2 ^ 53) :
    share budget size total ≤ budget + 1 := by
  obtain ⟨htotalFinite, htotalValue⟩ := value_ofNat htotal
  obtain ⟨hproductFinite, hproductPos, hproduct⟩ :=
    ofNat_mul_bounds hpos hbudget hsize (Nat.lt_of_le_of_lt hle htotal)
  rw [share]
  generalize Float.ofNat budget * Float.ofNat size = product at *
  have hsizeTop : (size : ℚ) ≤ total := by exact_mod_cast hle
  have htotalPos : (0 : ℚ) < total := by exact_mod_cast Nat.lt_of_lt_of_le hsize hle
  have hquotient : value (exact product) / total ≤ (budget + 1 : ℕ) := by
    rw [div_le_iff₀ htotalPos]
    calc value (exact product) ≤ budget * size * (1 + 1 / 2 ^ 53) := hproduct
      _ = budget * (size * (1 + 1 / 2 ^ 53)) := mul_assoc _ _ _
      _ ≤ (budget + 1) * size := grown_mul_le hbudget.le (by positivity)
      _ ≤ (budget + 1) * total := mul_le_mul_of_nonneg_left hsizeTop (by positivity)
      _ = ((budget + 1 : ℕ) : ℚ) * total := by push_cast; rfl
  have hsmall : |value (exact product) / total| ≤ maxFinite .binary64 := by
    rw [abs_of_nonneg (div_nonneg hproductPos htotalPos.le)]
    calc value (exact product) / total ≤ (budget + 1 : ℕ) := hquotient
      _ ≤ 2 ^ 53 := by exact_mod_cast hbudget
      _ ≤ maxFinite .binary64 := two_pow_le_maxFinite (by decide)
  have hword := rounds_div64 hproductFinite htotalFinite (by rw [htotalValue]; exact htotalPos.ne')
    (by rwa [htotalValue])
  rw [htotalValue] at hword
  exact roundWithin_le
    (hword.le_of_le _ (representable_natCast (by decide) hbudget) hquotient) hword.isFinite

/-- The number of points that two paired loops get. -/
def pairSize (a b : List (List Point)) (loopA loopB : List Point) : Nat :=
  let budget := max (pointCount a) (pointCount b)
  max (max leastLoopSize (share budget loopA.length (pointCount a)))
    (share budget loopB.length (pointCount b))

theorem leastLoopSize_le_pairSize (a b : List (List Point)) (loopA loopB : List Point) :
    leastLoopSize ≤ pairSize a b loopA loopB :=
  Nat.le_trans (Nat.le_max_left _ _) (Nat.le_max_left _ _)

theorem pairSize_le {a b : List (List Point)} {loopA loopB : List Point} (hloopA : loopA ∈ a)
    (hloopB : loopB ∈ b) (hA : loopA ≠ []) (hB : loopB ≠ []) (ha : pointCount a < 2 ^ 53)
    (hb : pointCount b < 2 ^ 53) : pairSize a b loopA loopB ≤ 2 ^ 53 := by
  have hsizeA := length_le_pointCount_of_mem hloopA
  have hsizeB := length_le_pointCount_of_mem hloopB
  have hposA := List.length_pos_iff.mpr hA
  have hposB := List.length_pos_iff.mpr hB
  have hbudget : max (pointCount a) (pointCount b) < 2 ^ 53 := max_lt ha hb
  have hbudgetPos : 0 < max (pointCount a) (pointCount b) := by omega
  have hshareA := share_le hposA hsizeA ha hbudgetPos hbudget
  have hshareB := share_le hposB hsizeB hb hbudgetPos hbudget
  exact max_le (max_le (by decide) (hshareA.trans hbudget)) (hshareB.trans hbudget)

/-! ## Sampled loops -/

/-- The loops of one side with the sizes of their pairs; `side` picks a loop of a pair. -/
def sampled (side : List Point → List Point → List Point) (a b : List (List Point)) :
    List (List Point) :=
  List.zipWith (fun loopA loopB => resample (side loopA loopB) (pairSize a b loopA loopB)) a b

theorem reconcile_eq (start target : Outline) :
    reconcile start target =
      (let a := padLoops start.loops target.loops.length
       let b := padLoops target.loops a.length
       (ofLoops (sampled (fun loopA _ => loopA) a b),
        ofLoops (sampled (fun _ loopB => loopB) a b))) := by
  dsimp only [reconcile, sampled]
  rw [List.map_map, List.map_map, List.map_zip_eq_zipWith, List.map_zip_eq_zipWith]
  rfl

section

variable {side : List Point → List Point → List Point} {a b : List (List Point)}
  (hside : ∀ loopA ∈ a, ∀ loopB ∈ b, side loopA loopB ≠ [])

theorem length_sampled (hlength : b.length = a.length) :
    (sampled side a b).length = a.length := by
  rw [sampled, List.length_zipWith, hlength, Nat.min_self]

private theorem two_le_pairSize (a b : List (List Point)) (loopA loopB : List Point) :
    2 ≤ pairSize a b loopA loopB :=
  Nat.le_trans (by decide) (leastLoopSize_le_pairSize a b loopA loopB)

include hside

/-- The sizes are those of the pairs, whichever side the loops are of. -/
theorem map_length_sampled :
    (sampled side a b).map List.length = List.zipWith (pairSize a b) a b := by
  rw [sampled, List.map_zipWith]
  refine List.ext_getElem? fun i => ?_
  rw [List.getElem?_zipWith, List.getElem?_zipWith]
  cases hA : a[i]? with
  | none => rfl
  | some loopA =>
    cases hB : b[i]? with
    | none => rfl
    | some loopB =>
      dsimp only
      rw [length_resample
        (hside loopA (List.mem_of_getElem? hA) loopB (List.mem_of_getElem? hB))
        (two_le_pairSize a b loopA loopB)]

theorem getElem?_sampled {i : Nat} {loopA loopB : List Point} (hA : a[i]? = some loopA)
    (hB : b[i]? = some loopB) :
    ∃ kept, (sampled side a b)[i]? = some kept ∧
      kept.head? = (side loopA loopB).head? ∧ kept.getLast? = (side loopA loopB).getLast? := by
  have hne := hside loopA (List.mem_of_getElem? hA) loopB (List.mem_of_getElem? hB)
  refine ⟨_, ?_, ends_resample hne (two_le_pairSize a b loopA loopB)⟩
  rw [sampled, List.getElem?_zipWith, hA, hB]

/-- The points of sampled loops are those of the loops, or lie between two of them. -/
theorem mem_sampled {P : Point → Prop}
    (hpoints : ∀ loopA ∈ a, ∀ loopB ∈ b, ∀ p ∈ side loopA loopB, P p)
    (hlength : ∀ loopA ∈ a, ∀ loopB ∈ b, (side loopA loopB).length ≤ 2 ^ 53)
    (hsize : ∀ loopA ∈ a, ∀ loopB ∈ b, pairSize a b loopA loopB ≤ 2 ^ 53) {loop : List Point}
    (h : loop ∈ sampled side a b) {p : Point} (hp : p ∈ loop) : Between P p := by
  obtain ⟨i, hi⟩ := List.mem_iff_getElem?.mp h
  obtain ⟨loopA, loopB, hA, hB, rfl⟩ := List.getElem?_zipWith_eq_some.mp hi
  have hmemA := List.mem_of_getElem? hA
  have hmemB := List.mem_of_getElem? hB
  exact (mem_resample (hside loopA hmemA loopB hmemB) (two_le_pairSize a b loopA loopB)
    (hlength loopA hmemA loopB hmemB) (hsize loopA hmemA loopB hmemB) hp).imp
      (hpoints loopA hmemA loopB hmemB)

/-- Sampled loops have the least number of points. -/
theorem leastLoopSize_le_length {loop : List Point} (h : loop ∈ sampled side a b) :
    leastLoopSize ≤ loop.length := by
  have hsize := List.mem_map_of_mem (f := List.length) h
  rw [map_length_sampled hside] at hsize
  obtain ⟨i, hi⟩ := List.mem_iff_getElem?.mp hsize
  obtain ⟨loopA, loopB, -, -, hpairSize⟩ := List.getElem?_zipWith_eq_some.mp hi
  rw [← hpairSize]
  exact leastLoopSize_le_pairSize a b loopA loopB

/-- Sampled loops of finite points hold no separator. -/
theorem isLoop_of_mem_sampled
    (hfinite : ∀ loopA ∈ a, ∀ loopB ∈ b, ∀ p ∈ side loopA loopB, p.Finite)
    (hlength : ∀ loopA ∈ a, ∀ loopB ∈ b, (side loopA loopB).length ≤ 2 ^ 53)
    (hsize : ∀ loopA ∈ a, ∀ loopB ∈ b, pairSize a b loopA loopB ≤ 2 ^ 53) :
    ∀ loop ∈ sampled side a b, IsLoop loop := by
  intro loop hloop
  constructor
  · rw [← List.length_pos_iff]
    exact Nat.lt_of_lt_of_le (by decide) (leastLoopSize_le_length hside hloop)
  · exact fun p hp => (mem_sampled hside hfinite hlength hsize hloop hp).not_separator

end

/-! ## Reconciling -/

/-- Every loop is found at its place among some others, with its ends. -/
def KeepsEnds (loops others : List (List Point)) : Prop :=
  ∀ (i : Nat) (loop : List Point), loops[i]? = some loop →
    ∃ kept : List Point, others[i]? = some kept ∧ kept.head? = loop.head? ∧
      kept.getLast? = loop.getLast?

/-- Loops of two outlines brought to equal numbers: as many as the outline with more loops has, with
equally many points in paired ones, no fewer than the least number, and with the ends of the loops
that there were. -/
structure Matched (start target : Outline) (left right : List (List Point)) : Prop where
  left_count : left.length = max start.loopCount target.loopCount
  right_count : right.length = max start.loopCount target.loopCount
  sizes : left.map List.length = right.map List.length
  least : ∀ loop ∈ left, leastLoopSize ≤ loop.length
  left_ends : KeepsEnds start.loops left
  right_ends : KeepsEnds target.loops right

/-- Outlines that memory can hold: a point takes eight bytes, of which no more than `2 ^ 56` have an
address. Larger numbers of points would have to be rounded before any place is computed. -/
def Addressable (start target : Outline) : Prop := 8 * (start.length + target.length) < 2 ^ 56

instance (start target : Outline) : Decidable (Addressable start target) :=
  inferInstanceAs (Decidable (_ < _))

/-- Every point of an outline that is no separator is finite. -/
def AllFinite (outline : Outline) : Prop := ∀ p ∈ outline, p.isSeparator = false → p.Finite

section

variable (start target : Outline)

/-- The loops of the first outline, padded. -/
private def leftLoops : List (List Point) := padLoops start.loops target.loops.length

/-- The loops of the second outline, padded. -/
private def rightLoops : List (List Point) :=
  padLoops target.loops (leftLoops start target).length

private theorem length_leftLoops :
    (leftLoops start target).length = max start.loopCount target.loopCount :=
  length_padLoops _ _

private theorem length_rightLoops :
    (rightLoops start target).length = (leftLoops start target).length := by
  rw [rightLoops, length_padLoops, length_leftLoops, loopCount, loopCount]
  omega

private theorem loops_ne_nil (outline : Outline) : ∀ loop ∈ outline.loops, loop ≠ [] :=
  fun _ h => (isLoop_of_mem_loops h).1

private theorem leftLoops_ne_nil : ∀ loop ∈ leftLoops start target, loop ≠ [] :=
  ne_nil_of_mem_padLoops (loops_ne_nil start)

private theorem rightLoops_ne_nil : ∀ loop ∈ rightLoops start target, loop ≠ [] :=
  ne_nil_of_mem_padLoops (loops_ne_nil target)

private theorem matched_sampled :
    Matched start target
      (sampled (fun loopA _ => loopA) (leftLoops start target) (rightLoops start target))
      (sampled (fun _ loopB => loopB) (leftLoops start target) (rightLoops start target)) := by
  have hlength := length_rightLoops start target
  have hleft : ∀ loopA ∈ leftLoops start target, ∀ loopB ∈ rightLoops start target,
      (fun loopA _ : List Point => loopA) loopA loopB ≠ [] :=
    fun loopA hA _ _ => leftLoops_ne_nil start target loopA hA
  have hright : ∀ loopA ∈ leftLoops start target, ∀ loopB ∈ rightLoops start target,
      (fun _ loopB : List Point => loopB) loopA loopB ≠ [] :=
    fun _ _ loopB hB => rightLoops_ne_nil start target loopB hB
  -- each side has a loop wherever the other one does
  have hpair {i : Nat} : i < (leftLoops start target).length →
      ∃ loopA loopB, (leftLoops start target)[i]? = some loopA ∧
        (rightLoops start target)[i]? = some loopB := fun hi =>
    ⟨_, _, List.getElem?_eq_getElem hi, List.getElem?_eq_getElem (hlength.symm ▸ hi)⟩
  refine ⟨?_, ?_, ?_, ?_, ?_, ?_⟩
  · rw [length_sampled hlength, length_leftLoops]
  · rw [length_sampled hlength, length_leftLoops]
  · rw [map_length_sampled hleft, map_length_sampled hright]
  · exact fun loop hloop => leastLoopSize_le_length hleft hloop
  · intro i loop hloop
    have hA : (leftLoops start target)[i]? = some loop := getElem?_padLoops hloop
    obtain ⟨hi, -⟩ := List.getElem?_eq_some_iff.mp hA
    obtain ⟨_, loopB, -, hB⟩ := hpair hi
    exact getElem?_sampled hleft hA hB
  · intro i loop hloop
    have hB : (rightLoops start target)[i]? = some loop := getElem?_padLoops hloop
    obtain ⟨hi, -⟩ := List.getElem?_eq_some_iff.mp hB
    rw [hlength] at hi
    obtain ⟨loopA, _, hA, -⟩ := hpair hi
    exact getElem?_sampled hright hA hB

/-- Reconciled outlines are equally long. -/
theorem length_reconcile (start target : Outline) :
    (reconcile start target).1.length = (reconcile start target).2.length := by
  rw [reconcile_eq]
  exact length_ofLoops_congr (matched_sampled start target).sizes

private theorem finite_loops {outline : Outline} (h : AllFinite outline) :
    ∀ loop ∈ outline.loops, ∀ p ∈ loop, p.Finite := fun _ hloop p hp =>
  h p (mem_of_mem_loops hloop hp) ((isLoop_of_mem_loops hloop).2 p hp)

private theorem finite_origin : Point.origin.Finite := ⟨by decide, by decide⟩

variable {start target}

private theorem pointCount_lt (h : Addressable start target) :
    pointCount (leftLoops start target) < 2 ^ 53 ∧
      pointCount (rightLoops start target) < 2 ^ 53 := by
  have hstart := pointCount_loops_le start
  have htarget := pointCount_loops_le target
  have hstartCount := loopCount_le start
  have htargetCount := loopCount_le target
  have hlength := length_leftLoops start target
  rw [loopCount] at hstartCount htargetCount
  rw [loopCount, loopCount] at hlength
  rw [Addressable] at h
  rw [rightLoops, pointCount_padLoops, hlength, leftLoops, pointCount_padLoops]
  omega

/-- No number of points is so large that it would have to be rounded. -/
private theorem sizes_le (h : Addressable start target) :
    (∀ loop ∈ leftLoops start target, loop.length ≤ 2 ^ 53) ∧
      (∀ loop ∈ rightLoops start target, loop.length ≤ 2 ^ 53) ∧
      ∀ loopA ∈ leftLoops start target, ∀ loopB ∈ rightLoops start target,
        pairSize (leftLoops start target) (rightLoops start target) loopA loopB ≤ 2 ^ 53 := by
  obtain ⟨hleft, hright⟩ := pointCount_lt h
  exact ⟨fun loop hloop => Nat.le_trans (length_le_pointCount_of_mem hloop) hleft.le,
    fun loop hloop => Nat.le_trans (length_le_pointCount_of_mem hloop) hright.le,
    fun loopA hA loopB hB => pairSize_le hA hB (leftLoops_ne_nil start target loopA hA)
      (rightLoops_ne_nil start target loopB hB) hleft hright⟩

/-- Finite outlines get no loops with separators. -/
private theorem isLoop_sampled (h : Addressable start target) (hstart : AllFinite start)
    (htarget : AllFinite target) :
    (∀ loop ∈ sampled (fun loopA _ => loopA) (leftLoops start target) (rightLoops start target),
        IsLoop loop) ∧
      ∀ loop ∈ sampled (fun _ loopB => loopB) (leftLoops start target) (rightLoops start target),
        IsLoop loop := by
  obtain ⟨hleft, hright, hsize⟩ := sizes_le h
  constructor
  · refine isLoop_of_mem_sampled (fun loopA hA _ _ => leftLoops_ne_nil start target loopA hA)
      (fun loopA hA _ _ => ?_) (fun loopA hA _ _ => hleft loopA hA) hsize
    exact forall_mem_padLoops (finite_loops hstart) finite_origin loopA hA
  · refine isLoop_of_mem_sampled (fun _ _ loopB hB => rightLoops_ne_nil start target loopB hB)
      (fun _ _ loopB hB => ?_) (fun _ _ loopB hB => hright loopB hB) hsize
    exact forall_mem_padLoops (finite_loops htarget) finite_origin loopB hB

/-- The points of reconciled outlines are separators, points of the outlines or the origin, or lie
between two such points. -/
theorem mem_reconcile {P : Point → Prop} (h : Addressable start target)
    (hstart : ∀ p ∈ start, p.isSeparator = false → P p)
    (htarget : ∀ p ∈ target, p.isSeparator = false → P p) (horigin : P .origin) {p : Point}
    (hp : p ∈ (reconcile start target).1 ∨ p ∈ (reconcile start target).2) :
    p = .separator ∨ Between P p := by
  obtain ⟨hlengthLeft, hlengthRight, hsize⟩ := sizes_le h
  have hloops {outline : Outline} (hpoints : ∀ p ∈ outline, p.isSeparator = false → P p) :
      ∀ loop ∈ outline.loops, ∀ p ∈ loop, P p := fun _ hloop p hp =>
    hpoints p (mem_of_mem_loops hloop hp) ((isLoop_of_mem_loops hloop).2 p hp)
  have hleft : ∀ loop ∈ leftLoops start target, ∀ p ∈ loop, P p :=
    forall_mem_padLoops (hloops hstart) horigin
  have hright : ∀ loop ∈ rightLoops start target, ∀ p ∈ loop, P p :=
    forall_mem_padLoops (hloops htarget) horigin
  rw [reconcile_eq] at hp
  rcases hp with hp | hp <;> refine (mem_ofLoops hp).imp_right fun ⟨loop, hloop, hp⟩ => ?_
  · exact mem_sampled (fun loopA hA _ _ => leftLoops_ne_nil start target loopA hA)
      (fun loopA hA _ _ => hleft loopA hA) (fun loopA hA _ _ => hlengthLeft loopA hA) hsize hloop hp
  · exact mem_sampled (fun _ _ loopB hB => rightLoops_ne_nil start target loopB hB)
      (fun _ _ loopB hB => hright loopB hB) (fun _ _ loopB hB => hlengthRight loopB hB) hsize hloop hp

private theorem separators_at_joints {all : List (List Point)} (h : ∀ loop ∈ all, IsLoop loop)
    {i : Nat} {p : Point} (hp : (ofLoops all)[i]? = some p) (hseparator : p.isSeparator = true) :
    i ∈ joints 0 all :=
  mem_joints_of_isSeparator (fun loop hloop => (h loop hloop).2) [] (Nat.zero_le i) hp hseparator

/-- Reconciled outlines are equally long and made of matched loops, joined by separators at the same
indices. When every point is finite there is no other separator, so both have the number of loops
that the outline with more loops has. -/
theorem reconcile_matched (start target : Outline) :
    ∃ left right, reconcile start target = (ofLoops left, ofLoops right) ∧
      Matched start target left right ∧
      (ofLoops left).length = (ofLoops right).length ∧
      joints 0 left = joints 0 right ∧
      (∀ i ∈ joints 0 left, (ofLoops left)[i]? = some .separator ∧
        (ofLoops right)[i]? = some .separator) ∧
      (Addressable start target → AllFinite start → AllFinite target →
        (∀ i p, (ofLoops left)[i]? = some p ∨ (ofLoops right)[i]? = some p →
          p.isSeparator = true → i ∈ joints 0 left) ∧
        (ofLoops left).loopCount = max start.loopCount target.loopCount ∧
        (ofLoops right).loopCount = max start.loopCount target.loopCount) := by
  have hmatched := matched_sampled start target
  have hjoints := joints_congr hmatched.sizes 0
  refine ⟨_, _, reconcile_eq start target, hmatched, length_ofLoops_congr hmatched.sizes, hjoints,
    ?_, ?_⟩
  · intro i hi
    exact ⟨getElem?_joints [] hi, getElem?_joints [] (hjoints ▸ hi)⟩
  · intro haddressable hstart htarget
    obtain ⟨hleft, hright⟩ := isLoop_sampled haddressable hstart htarget
    refine ⟨?_, ?_, ?_⟩
    · rintro i p (hp | hp) hseparator
      · exact separators_at_joints hleft hp hseparator
      · exact hjoints.symm ▸ separators_at_joints hright hp hseparator
    · exact (congrArg List.length (loops_ofLoops hleft)).trans hmatched.left_count
    · exact (congrArg List.length (loops_ofLoops hright)).trans hmatched.right_count

end

/-- A point, two adjacent separators, an edge and a separator. -/
def dotAndEdge : Outline := [⟨1, 1⟩, .separator, .separator, ⟨0, 0⟩, ⟨1, 0⟩, .separator]

/-- The two loops of `dotAndEdge` are matched with two single points when there is nothing else. -/
theorem reconcile_dotAndEdge :
    Addressable dotAndEdge [] ∧ AllFinite dotAndEdge ∧ AllFinite [] ∧
      ∃ left right, reconcile dotAndEdge [] = (ofLoops left, ofLoops right) ∧
        left.length = 2 ∧ (ofLoops left).loopCount = 2 ∧ (ofLoops right).loopCount = 2 := by
  have haddressable : Addressable dotAndEdge [] := by
    unfold Addressable
    decide
  have hfinite : AllFinite dotAndEdge := by
    unfold AllFinite Point.Finite
    decide
  have hnothing : AllFinite [] := fun _ hp => nomatch hp
  obtain ⟨left, right, heq, hmatched, -, -, -, hclean⟩ := reconcile_matched dotAndEdge []
  obtain ⟨-, hleft, hright⟩ := hclean haddressable hfinite hnothing
  have hcount : max (loopCount dotAndEdge) (loopCount []) = 2 := by decide
  have hlength : left.length = 2 := hmatched.left_count.trans hcount
  exact ⟨haddressable, hfinite, hnothing, left, right, heq, hlength, hleft.trans hcount,
    hright.trans hcount⟩

end Outline

end Animatic
