import Animatic.Proofs.Geometry.Loops
import Animatic.Proofs.Number.Single
import Mathlib.Data.List.Forall2

/-!
# Closed loops

A loop is closed when it ends where it starts, or has too few points to enclose anything. Closing an
outline puts the first point of every other loop behind it, and drops the separators that no outline
needs. What comes out is closed, so that closing it again changes nothing.

* `Point.same_iff`: points compare as their coordinates do, zeros of both signs being equal.
* `Closes`: what closing makes of one loop.
* `Outline.ClosesTo`: what it makes of an outline.
* `Outline.closeLoops_closes`: every outline is closed that way, and once is enough.
-/

namespace Animatic

open Number

/-! ## Equal points -/

/-- Points are equal if they have numbers for coordinates, and those are equal. -/
theorem Point.same_iff {p q : Point} :
    p.same q = true ↔ p.isSeparator = false ∧ q.isSeparator = false ∧
      rank32 p.x = rank32 q.x ∧ rank32 p.y = rank32 q.y := by
  simp only [same, isSeparator, Bool.and_eq_true, Bool.or_eq_false_iff, beq32_iff_rank]
  tauto

/-- A point that is no separator is equal to itself. -/
theorem Point.same_self {p : Point} (h : p.isSeparator = false) : p.same p = true :=
  same_iff.mpr ⟨h, h, rfl, rfl⟩

/-! ## One loop -/

/-- Whether a loop ends where it starts, or has too few points to enclose anything. -/
def IsClosed (loop : List Point) : Prop :=
  loop.length ≤ 2 ∨
    ∃ first last, loop.head? = some first ∧ loop.getLast? = some last ∧ first.same last = true

/-- What closing makes of a loop: it stays as it is, or gets its first point at its end. -/
inductive Closes : List Point → List Point → Prop where
  | kept {loop : List Point} (h : IsClosed loop) : Closes loop loop
  | closed {first : Point} {rest : List Point} (h : ¬ IsClosed (first :: rest)) :
    Closes (first :: rest) (first :: rest ++ [first])

variable {loop closed : List Point}

theorem closes_closeLoop (loop : List Point) : Closes loop (closeLoop loop) := by
  unfold closeLoop
  split
  · rename_i first second last rest
    have hends : IsClosed (first :: second :: last :: rest) ↔
        first.same (rest.getLastD last) = true := by
      simp [IsClosed, List.getLast?_cons]
    split
    · exact .kept (hends.mpr ‹_›)
    · exact .closed fun h => ‹¬ _› (hends.mp h)
  · rename_i hshort
    refine .kept (.inl ?_)
    match loop with
    | [] | [_] | [_, _] => simp
    | first :: second :: last :: rest => exact absurd rfl (hshort first second last rest)

theorem closeLoop_of_isClosed (h : IsClosed loop) : closeLoop loop = loop := by
  have hcloses := closes_closeLoop loop
  generalize closeLoop loop = closed at hcloses
  cases hcloses with
  | kept => rfl
  | closed hopen => exact absurd h hopen

namespace Closes

variable (h : Closes loop closed) (hloop : Outline.IsLoop loop)

include h hloop

/-- A loop that is closed gets no separator. -/
theorem isLoop : Outline.IsLoop closed := by
  cases h with
  | kept => exact hloop
  | closed =>
    refine ⟨List.cons_ne_nil _ _, fun p hp => ?_⟩
    rcases List.mem_append.mp hp with hp | hp
    · exact hloop.2 p hp
    · obtain rfl := List.mem_singleton.mp hp
      exact hloop.2 _ List.mem_cons_self

theorem isClosed : IsClosed closed := by
  cases h with
  | kept h => exact h
  | @closed first rest =>
    refine .inr ⟨first, first, rfl, List.getLast?_concat, ?_⟩
    exact Point.same_self (hloop.2 first List.mem_cons_self)

end Closes

/-! ## Outlines -/

namespace Outline

/-- What closing makes of an outline, whose loops are what stands between separators. -/
structure ClosesTo (outline closed : Outline) : Prop where
  /-- Every loop stands where it stood, closed. -/
  loops : List.Forall₂ Closes ((outline.splitOnP Point.isSeparator).filter (!·.isEmpty))
    ((closed.splitOnP Point.isSeparator).filter (!·.isEmpty))
  /-- One separator stands between neighbours. -/
  joined : closed = [Point.separator].intercalate
    ((closed.splitOnP Point.isSeparator).filter (!·.isEmpty))
  /-- There is a loop on both sides of every separator. -/
  pieces : closed ≠ [] → ∀ piece ∈ closed.splitOnP Point.isSeparator, piece ≠ []

/-- The loops of a closed outline. -/
theorem loops_closeLoops (outline : Outline) :
    (closeLoops outline).loops = outline.loops.map closeLoop := by
  refine loops_ofLoops fun closed hclosed => ?_
  obtain ⟨loop, hloop, rfl⟩ := List.mem_map.mp hclosed
  exact (closes_closeLoop loop).isLoop (isLoop_of_mem_loops hloop)

/-- A closed outline is its loops put together. -/
theorem closeLoops_eq_ofLoops (outline : Outline) :
    closeLoops outline = ofLoops (closeLoops outline).loops := by
  rw [loops_closeLoops, closeLoops]

theorem isClosed_of_mem_closeLoops {outline : Outline} (h : closed ∈ (closeLoops outline).loops) :
    IsClosed closed := by
  rw [loops_closeLoops] at h
  obtain ⟨loop, hloop, rfl⟩ := List.mem_map.mp h
  exact (closes_closeLoop loop).isClosed (isLoop_of_mem_loops hloop)

/-- An outline is left alone if its loops are closed and no separator of it is in vain. -/
theorem closeLoops_eq_self_iff (outline : Outline) :
    closeLoops outline = outline ↔
      outline = ofLoops outline.loops ∧ ∀ loop ∈ outline.loops, IsClosed loop := by
  constructor
  · intro h
    have hclosed : ∀ loop ∈ outline.loops, IsClosed loop := by
      intro loop hloop
      rw [← h] at hloop
      exact isClosed_of_mem_closeLoops hloop
    refine ⟨?_, hclosed⟩
    calc outline = closeLoops outline := h.symm
      _ = ofLoops (closeLoops outline).loops := closeLoops_eq_ofLoops outline
      _ = ofLoops outline.loops := by rw [h]
  · rintro ⟨hjoined, hclosed⟩
    have hkept : outline.loops.map closeLoop = outline.loops :=
      (List.map_congr_left fun loop hloop => closeLoop_of_isClosed (hclosed loop hloop)).trans
        (List.map_id _)
    rw [closeLoops, hkept, ← hjoined]

/-- A closed outline has no empty pieces, unless it has no points. -/
theorem splitOnP_closeLoops {outline : Outline} (hne : closeLoops outline ≠ []) :
    (closeLoops outline).splitOnP Point.isSeparator = (closeLoops outline).loops := by
  have hsome : (closeLoops outline).loops ≠ [] := fun hnil =>
    hne (by rw [closeLoops_eq_ofLoops, hnil]; rfl)
  rw [← pieces_eq_splitOnP]
  calc pieces (closeLoops outline) = pieces (ofLoops (closeLoops outline).loops) := by
        rw [← closeLoops_eq_ofLoops]
    _ = (closeLoops outline).loops :=
      pieces_ofLoops hsome fun loop hloop => (isLoop_of_mem_loops hloop).2

/-- Every outline is closed loop by loop, without the separators that are in vain. Closing once is
enough, and changes nothing just if there is no such separator and every loop is closed. -/
theorem closeLoops_closes (outline : Outline) :
    ClosesTo outline (closeLoops outline) ∧
      closeLoops (closeLoops outline) = closeLoops outline ∧
      (closeLoops outline = outline ↔
        outline = [Point.separator].intercalate
          ((outline.splitOnP Point.isSeparator).filter (!·.isEmpty)) ∧
        ∀ loop ∈ (outline.splitOnP Point.isSeparator).filter (!·.isEmpty), IsClosed loop) := by
  have hjoined := closeLoops_eq_ofLoops outline
  refine ⟨⟨?_, ?_, fun hne piece hpiece => ?_⟩, ?_, ?_⟩
  · rw [← loops_eq_splitOnP, ← loops_eq_splitOnP, loops_closeLoops, List.forall₂_map_right_iff]
    exact List.forall₂_same.mpr fun loop _ => closes_closeLoop loop
  · rw [← loops_eq_splitOnP]
    exact hjoined
  · rw [splitOnP_closeLoops hne] at hpiece
    exact (isLoop_of_mem_loops hpiece).1
  · exact (closeLoops_eq_self_iff _).mpr ⟨hjoined, fun _ => isClosed_of_mem_closeLoops⟩
  · rw [← loops_eq_splitOnP]
    exact closeLoops_eq_self_iff outline

/-- Needless separators around an open loop and an edge. -/
def looseOutline : Outline :=
  [.separator, ⟨0, 0⟩, ⟨1, 0⟩, ⟨1, 1⟩, .separator, .separator, ⟨2, 0⟩, ⟨3, 0⟩, .separator]

/-- The open loop of `looseOutline` gets its first point at its end, and one separator is left. -/
theorem closeLoops_looseOutline :
    closeLoops looseOutline =
      [⟨0, 0⟩, ⟨1, 0⟩, ⟨1, 1⟩, ⟨0, 0⟩, .separator, ⟨2, 0⟩, ⟨3, 0⟩] ∧
    ClosesTo looseOutline (closeLoops looseOutline) ∧
    closeLoops (closeLoops looseOutline) = closeLoops looseOutline ∧
    closeLoops looseOutline ≠ looseOutline := by
  obtain ⟨hcloses, hagain, -⟩ := closeLoops_closes looseOutline
  have hclosed : closeLoops looseOutline =
      [⟨0, 0⟩, ⟨1, 0⟩, ⟨1, 1⟩, ⟨0, 0⟩, .separator, ⟨2, 0⟩, ⟨3, 0⟩] := rfl
  have hlength : (closeLoops looseOutline).length ≠ looseOutline.length := by
    rw [hclosed]
    decide
  exact ⟨hclosed, hcloses, hagain, fun hsame => hlength (congrArg List.length hsame)⟩

end Outline

end Animatic
