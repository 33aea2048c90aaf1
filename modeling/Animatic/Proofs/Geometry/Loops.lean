import Animatic.Geometry.Matching
import Mathlib.Data.List.Basic

/-!
# Loops of an outline

Taking an outline apart and putting loops together are inverse to each other, up to the empty loops
and the separators that no outline needs.

* `loops_eq_splitOnP`: loops are what stands between separators.
* `loops_ofLoops`: loops are found again in their outline.
* `joints`: where `ofLoops` puts separators; the sizes of the loops decide it.
-/

namespace Animatic.Outline

variable {outline : Outline} {piece loop : List Point} {p : Point}

/-- Some points of which none is a separator. -/
def IsLoop (points : List Point) : Prop := points ≠ [] ∧ ∀ p ∈ points, p.isSeparator = false

/-! ## Pieces -/

theorem pieces_cons (p : Point) (outline : Outline) :
    pieces (p :: outline) = addPoint p (pieces outline) := rfl

theorem addPoint_separator (h : p.isSeparator = true) (pieces : List (List Point)) :
    addPoint p pieces = [] :: pieces := by
  unfold addPoint
  rw [if_pos h]

theorem addPoint_point (h : p.isSeparator = false) (piece : List Point)
    (others : List (List Point)) : addPoint p (piece :: others) = (p :: piece) :: others := by
  unfold addPoint
  rw [h]
  rfl

/-- Points without a separator go in front of the first piece. -/
private theorem foldr_addPoint (hp : ∀ p ∈ loop, p.isSeparator = false) (others : List (List Point)) :
    loop.foldr addPoint (piece :: others) = (loop ++ piece) :: others := by
  induction loop with
  | nil => rfl
  | cons p rest ih =>
    rw [List.forall_mem_cons] at hp
    rw [List.foldr_cons, ih hp.2, addPoint_point hp.1, List.cons_append]

private theorem pieces_eq_cons (outline : Outline) :
    ∃ first others, pieces outline = first :: others := by
  induction outline with
  | nil => exact ⟨[], [], rfl⟩
  | cons p rest ih =>
    obtain ⟨first, others, hpieces⟩ := ih
    rw [pieces_cons, hpieces]
    cases hp : p.isSeparator with
    | true => exact ⟨[], first :: others, addPoint_separator hp _⟩
    | false => exact ⟨p :: first, others, addPoint_point hp first others⟩

/-- The pieces are what stands between separators. -/
theorem pieces_eq_splitOnP (outline : Outline) :
    pieces outline = outline.splitOnP Point.isSeparator := by
  induction outline with
  | nil => simp [pieces]
  | cons p rest ih =>
    obtain ⟨first, others, hpieces⟩ := pieces_eq_cons rest
    rw [pieces_cons, List.splitOnP_cons_eq_if_modifyHead, ← ih, hpieces]
    cases hp : p.isSeparator with
    | true => simp [addPoint_separator hp]
    | false => simp [addPoint_point hp]

/-- The points of a piece are points of the outline other than separators. -/
private theorem mem_piece (h : piece ∈ pieces outline) (hp : p ∈ piece) :
    p ∈ outline ∧ p.isSeparator = false := by
  induction outline generalizing piece with
  | nil =>
    rw [pieces, List.foldr_nil, List.mem_singleton] at h
    rw [h] at hp
    cases hp
  | cons q rest ih =>
    have hrest {piece} (h : piece ∈ pieces rest) (hp : p ∈ piece) :
        p ∈ q :: rest ∧ p.isSeparator = false :=
      ⟨List.mem_cons_of_mem q (ih h hp).1, (ih h hp).2⟩
    obtain ⟨first, others, hpieces⟩ := pieces_eq_cons rest
    rw [pieces_cons, hpieces] at h
    cases hq : q.isSeparator with
    | true =>
      rw [addPoint_separator hq, ← hpieces] at h
      rcases List.mem_cons.mp h with rfl | h
      · cases hp
      · exact hrest h hp
    | false =>
      rw [addPoint_point hq] at h
      rcases List.mem_cons.mp h with rfl | h
      · rcases List.mem_cons.mp hp with rfl | hp
        · exact ⟨List.mem_cons_self, hq⟩
        · exact hrest (hpieces ▸ List.mem_cons_self) hp
      · exact hrest (hpieces ▸ List.mem_cons_of_mem first h) hp

theorem pointCount_cons (loop : List Point) (others : List (List Point)) :
    pointCount (loop :: others) = loop.length + pointCount others := rfl

private theorem pointCount_pieces_le (outline : Outline) :
    pointCount (pieces outline) ≤ outline.length := by
  induction outline with
  | nil => exact Nat.le_refl 0
  | cons p rest ih =>
    obtain ⟨first, others, hpieces⟩ := pieces_eq_cons rest
    rw [hpieces, pointCount_cons] at ih
    rw [pieces_cons, hpieces, List.length_cons]
    cases hp : p.isSeparator with
    | true =>
      rw [addPoint_separator hp, pointCount_cons, pointCount_cons, List.length_nil]
      omega
    | false =>
      rw [addPoint_point hp, pointCount_cons, List.length_cons]
      omega

/-! ## Loops -/

theorem loops_eq_splitOnP (outline : Outline) :
    outline.loops = (outline.splitOnP Point.isSeparator).filter (!·.isEmpty) := by
  rw [loops, pieces_eq_splitOnP]

theorem isLoop_of_mem_loops (h : loop ∈ outline.loops) : IsLoop loop := by
  obtain ⟨hmem, hempty⟩ := List.mem_filter.mp h
  refine ⟨?_, fun p hp => (mem_piece hmem hp).2⟩
  rintro rfl
  cases hempty

theorem mem_of_mem_loops (h : loop ∈ outline.loops) (hp : p ∈ loop) : p ∈ outline :=
  (mem_piece (List.mem_filter.mp h).1 hp).1

theorem pointCount_loops_le (outline : Outline) : pointCount outline.loops ≤ outline.length := by
  refine Nat.le_trans ?_ (pointCount_pieces_le outline)
  rw [loops]
  induction pieces outline with
  | nil => exact Nat.le_refl 0
  | cons piece others ih =>
    rw [List.filter_cons, pointCount_cons]
    split
    · rw [pointCount_cons]
      exact Nat.add_le_add_left ih _
    · exact Nat.le_add_left_of_le ih

/-- Every loop has a point. -/
theorem length_le_pointCount {all : List (List Point)} (h : ∀ loop ∈ all, loop ≠ []) :
    all.length ≤ pointCount all := by
  induction all with
  | nil => exact Nat.le_refl 0
  | cons loop others ih =>
    rw [List.forall_mem_cons] at h
    have hpos := List.length_pos_iff.mpr h.1
    have hrest := ih h.2
    rw [List.length_cons, pointCount_cons]
    omega

theorem loopCount_le (outline : Outline) : outline.loopCount ≤ outline.length :=
  Nat.le_trans (length_le_pointCount fun _ h => (isLoop_of_mem_loops h).1)
    (pointCount_loops_le outline)

private theorem isSeparator_separator : Point.separator.isSeparator = true := by
  decide

/-- Loops are the pieces of the outline that they are put together to. -/
theorem pieces_ofLoops {all : List (List Point)} (hne : all ≠ [])
    (h : ∀ loop ∈ all, ∀ p ∈ loop, p.isSeparator = false) : pieces (ofLoops all) = all := by
  induction all with
  | nil => exact absurd rfl hne
  | cons loop others ih =>
    rw [List.forall_mem_cons] at h
    cases others with
    | nil =>
      rw [ofLoops, List.intercalate_singleton, pieces, foldr_addPoint h.1, List.append_nil]
    | cons next others =>
      have hrest := ih (List.cons_ne_nil next others) h.2
      rw [ofLoops, List.intercalate_cons_cons, List.append_assoc, List.singleton_append, pieces,
        List.foldr_append, List.foldr_cons]
      rw [ofLoops, pieces] at hrest
      rw [hrest, addPoint_separator isSeparator_separator, foldr_addPoint h.1, List.append_nil]

/-- Loops are found again in the outline that they are put together to. -/
theorem loops_ofLoops {all : List (List Point)} (h : ∀ loop ∈ all, IsLoop loop) :
    loops (ofLoops all) = all := by
  cases all with
  | nil => rfl
  | cons loop others =>
    rw [loops, pieces_ofLoops (List.cons_ne_nil loop others) fun loop hmem => (h loop hmem).2,
      List.filter_eq_self]
    intro loop hmem
    rw [Bool.not_eq_true', List.isEmpty_eq_false_iff]
    exact (h loop hmem).1

theorem mem_ofLoops {all : List (List Point)} (h : p ∈ ofLoops all) :
    p = .separator ∨ ∃ loop ∈ all, p ∈ loop := by
  induction all with
  | nil => cases h
  | cons loop others ih =>
    cases others with
    | nil =>
      rw [ofLoops, List.intercalate_singleton] at h
      exact .inr ⟨loop, List.mem_singleton_self loop, h⟩
    | cons next others =>
      rw [ofLoops, List.intercalate_cons_cons, List.append_assoc, List.mem_append,
        List.mem_append, List.mem_singleton] at h
      rcases h with h | h | h
      · exact .inr ⟨loop, List.mem_cons_self, h⟩
      · exact .inl h
      · exact (ih h).imp_right fun ⟨found, hmem, hp⟩ => ⟨found, List.mem_cons_of_mem loop hmem, hp⟩

/-! ## Joints -/

/-- Where `ofLoops` puts separators, if its first point stands at `place`. -/
def joints (place : Nat) : List (List Point) → List Nat
  | [] | [_] => []
  | loop :: next :: others =>
    (place + loop.length) :: joints (place + loop.length + 1) (next :: others)

/-- The sizes of the loops decide where they are joined. -/
theorem joints_congr {all all' : List (List Point)} (h : all.map List.length = all'.map List.length)
    (place : Nat) : joints place all = joints place all' := by
  induction all generalizing place all' with
  | nil => rw [List.map_eq_nil_iff.mp h.symm]
  | cons loop others ih =>
    obtain ⟨loop', others', rfl, hloop, hothers⟩ := List.map_eq_cons_iff.mp h.symm
    have hrest := ih hothers.symm (place + loop.length + 1)
    cases others with
    | nil =>
      obtain rfl := List.map_eq_nil_iff.mp hothers
      rfl
    | cons next others =>
      obtain ⟨next', others', rfl, -, -⟩ := List.map_eq_cons_iff.mp hothers
      rw [joints, joints, hrest, hloop]

theorem length_ofLoops (all : List (List Point)) :
    (ofLoops all).length = pointCount all + (all.length - 1) := by
  induction all with
  | nil => rfl
  | cons loop others ih =>
    rw [pointCount_cons]
    cases others with
    | nil =>
      rw [ofLoops, List.intercalate_singleton]
      rfl
    | cons next others =>
      rw [ofLoops] at ih
      rw [ofLoops, List.intercalate_cons_cons, List.length_append, List.length_append, ih]
      simp only [List.length_cons, List.length_nil]
      omega

theorem pointCount_congr {all all' : List (List Point)}
    (h : all.map List.length = all'.map List.length) : pointCount all = pointCount all' := by
  have hsum (all : List (List Point)) : pointCount all = (all.map List.length).sum := by
    induction all with
    | nil => rfl
    | cons loop others ih => rw [pointCount_cons, ih, List.map_cons, List.sum_cons]
  rw [hsum, hsum, h]

theorem length_ofLoops_congr {all all' : List (List Point)}
    (h : all.map List.length = all'.map List.length) :
    (ofLoops all).length = (ofLoops all').length := by
  have hcount := congrArg List.length h
  rw [List.length_map, List.length_map] at hcount
  rw [length_ofLoops, length_ofLoops, pointCount_congr h, hcount]

private theorem ofLoops_cons_cons (front loop next : List Point) (others : List (List Point)) :
    front ++ ofLoops (loop :: next :: others) =
      (front ++ loop ++ [Point.separator]) ++ ofLoops (next :: others) := by
  rw [ofLoops, ofLoops, List.intercalate_cons_cons, List.append_assoc, List.append_assoc,
    List.append_assoc]

private theorem length_joined (front loop : List Point) :
    (front ++ loop ++ [Point.separator]).length = front.length + loop.length + 1 := by
  rw [List.length_append, List.length_append, List.length_singleton]

/-- At a joint of an outline stands a separator. -/
theorem getElem?_joints {all : List (List Point)} (front : List Point) {i : Nat}
    (h : i ∈ joints front.length all) : (front ++ ofLoops all)[i]? = some Point.separator := by
  induction all generalizing front with
  | nil => cases h
  | cons loop others ih =>
    cases others with
    | nil => cases h
    | cons next others =>
      rw [ofLoops_cons_cons]
      rcases List.mem_cons.mp h with rfl | h
      · rw [List.getElem?_append_left (by rw [length_joined]; exact Nat.lt_succ_self _),
          ← List.length_append, List.getElem?_concat_length]
      · rw [← length_joined] at h
        exact ih _ h

/-- Loops without separators have none in their outline but at the joints. -/
theorem mem_joints_of_isSeparator {all : List (List Point)}
    (hall : ∀ loop ∈ all, ∀ p ∈ loop, p.isSeparator = false) (front : List Point) {i : Nat}
    (hi : front.length ≤ i) (h : (front ++ ofLoops all)[i]? = some p)
    (hp : p.isSeparator = true) : i ∈ joints front.length all := by
  induction all generalizing front with
  | nil =>
    rw [ofLoops, List.intercalate_nil, List.append_nil, List.getElem?_eq_none hi] at h
    cases h
  | cons loop others ih =>
    rw [List.forall_mem_cons] at hall
    have hloop {q} (hmem : q ∈ loop) (hq : q = p) : False := by
      rw [hq] at hmem
      exact Bool.noConfusion (hp.symm.trans (hall.1 p hmem))
    cases others with
    | nil =>
      rw [ofLoops, List.intercalate_singleton, List.getElem?_append_right hi] at h
      exact (hloop (List.mem_of_getElem? h) rfl).elim
    | cons next others =>
      rw [joints, List.mem_cons]
      rw [ofLoops_cons_cons] at h
      rcases Nat.lt_trichotomy i (front.length + loop.length) with hlt | heq | hgt
      · rw [List.getElem?_append_left (by rw [length_joined]; omega),
          List.getElem?_append_left (by rw [List.length_append]; exact hlt),
          List.getElem?_append_right hi] at h
        exact (hloop (List.mem_of_getElem? h) rfl).elim
      · exact .inl heq
      · refine .inr ?_
        rw [← length_joined]
        exact ih hall.2 _ (by rw [length_joined]; exact hgt) h

end Animatic.Outline
