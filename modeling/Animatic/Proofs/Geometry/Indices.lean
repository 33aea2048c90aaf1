import Animatic.Motion.ShapeTween
import Animatic.Proofs.Geometry.Reconcile

/-!
# Indices and lengths of outlines

Resampling looks points up by index, and a blend pairs the points of two outlines. Here both are
done with a check: nothing comes of an index behind the end of a loop, or of outlines that are not
equally long. No check fails, whatever the outlines are.

* `resample?`, `Outline.reconcile?`, `ShapeTween.start?`: with checks.
* `resample?_eq`, `Outline.reconcile?_eq`, `ShapeTween.start?_eq`: what they give.
-/

namespace Animatic

/-! ## Resampling -/

/-- The point at index `i` of a loop that is resampled by `step`, if the two points that it falls
between are there. -/
def resampledPoint? (loop : List Point) (step : Float) (i : Nat) : Option Point := do
  let place := Float.ofNat i * step
  let index := min (Number.truncWithin Number.longLimit (Number.exact place)) (loop.length - 2)
  let share := Number.narrow (place - Float.ofNat index)
  let before ← loop[index]?
  let behind ← loop[index + 1]?
  return before.blend behind share

/-- A loop with another number of points, if all the points that it is made from are there. -/
def resample? (loop : List Point) (count : Nat) : Option (List Point) :=
  if count = 0 then some []
  else if loop.length = count then some loop
  else
    match loop with
    | [] => some (List.replicate count .origin)
    | [first] => some (List.replicate count first)
    | first :: second :: rest =>
      if count = 1 then some [first]
      else do
        let loop := first :: second :: rest
        let step := Float.ofNat (loop.length - 1) / Float.ofNat (count - 1)
        let inner ← (List.range (count - 2)).mapM fun i => resampledPoint? loop step (i + 1)
        let last ← loop[loop.length - 1]?
        return first :: inner ++ [last]

/-- A check that no item fails is not failed by a list. -/
private theorem mapM_eq_some {α β : Type} {f : α → Option β} {g : α → β}
    (h : ∀ a, f a = some (g a)) (items : List α) : items.mapM f = some (items.map g) := by
  rw [funext h]
  exact List.mapM_pure

/-- However far along a loop a point is placed, it falls between two points of the loop. -/
theorem resampledPoint?_eq {loop : List Point} (h : 2 ≤ loop.length) (step : Float) (i : Nat) :
    resampledPoint? loop step i = some (resampledPoint loop step i) := by
  unfold resampledPoint? resampledPoint
  dsimp only
  generalize hindex : min (Number.truncWithin _ _) (loop.length - 2) = index
  have hlast : index + 1 < loop.length := by omega
  rw [List.getElem?_eq_getElem (Nat.lt_of_succ_lt hlast), List.getElem?_eq_getElem hlast,
    List.getD_eq_getElem _ _ (Nat.lt_of_succ_lt hlast), List.getD_eq_getElem _ _ hlast]
  rfl

/-- Every index of a loop that is resampled is in range. -/
theorem resample?_eq (loop : List Point) (count : Nat) :
    resample? loop count = some (resample loop count) := by
  unfold resample? resample
  by_cases hzero : count = 0
  · rw [if_pos hzero, if_pos hzero]
  rw [if_neg hzero, if_neg hzero]
  by_cases hlength : loop.length = count
  · rw [if_pos hlength, if_pos hlength]
  rw [if_neg hlength, if_neg hlength]
  match loop with
  | [] | [_] => rfl
  | first :: second :: rest =>
    dsimp only
    by_cases hone : count = 1
    · rw [if_pos hone, if_pos hone]
    rw [if_neg hone, if_neg hone]
    have hinner (step : Float) :
        (List.range (count - 2)).mapM
            (fun i => resampledPoint? (first :: second :: rest) step (i + 1)) =
          some ((List.range (count - 2)).map
            fun i => resampledPoint (first :: second :: rest) step (i + 1)) :=
      mapM_eq_some (fun i => resampledPoint?_eq (Nat.le_add_left 2 _) step (i + 1)) _
    have hlast : (first :: second :: rest)[(first :: second :: rest).length - 1]? =
        some (rest.getLastD second) := by
      rw [← List.getLast?_eq_getElem?, List.getLast?_cons_cons, List.getLast?_cons,
        List.getLastD_eq_getLast?]
    rw [hinner, hlast]
    rfl

/-! ## Blends -/

/-- Two outlines brought to equally many loops, and paired loops to equally many points, if all the
points that are needed are there. -/
def Outline.reconcile? (start target : Outline) : Option (Outline × Outline) := do
  let a := padLoops start.loops target.loops.length
  let b := padLoops target.loops a.length
  let pairs ← (a.zip b).mapM fun (loopA, loopB) => do
    let count := pairSize a b loopA loopB
    return (← resample? loopA count, ← resample? loopB count)
  return (ofLoops (pairs.map (·.1)), ofLoops (pairs.map (·.2)))

theorem Outline.reconcile?_eq (start target : Outline) :
    reconcile? start target = some (reconcile start target) := by
  have hpairs (a b : List (List Point)) (pairs : List (List Point × List Point)) :
      pairs.mapM (fun (loopA, loopB) => do
          let count := pairSize a b loopA loopB
          return (← resample? loopA count, ← resample? loopB count)) =
        some (pairs.map fun (loopA, loopB) =>
          (resample loopA (pairSize a b loopA loopB), resample loopB (pairSize a b loopA loopB))) :=
    mapM_eq_some (fun ⟨_, _⟩ => by dsimp only; rw [resample?_eq, resample?_eq]; rfl) pairs
  rw [reconcile?, hpairs]
  rfl

/-- A tween between two outlines, which are centred and reconciled, if they are equally long then:
nothing is cut. -/
def ShapeTween.start? (source target : Outline) (duration : Float) (easing : Easing)
    (commit : ShapeCommit) : Option ShapeTween := do
  let (start, target) ← Outline.reconcile? source.centered target.centered
  if start.length = target.length then
    return { blend := ⟨start, target⟩, duration, elapsed := 0, easing, commit }
  else none

/-- Every tween starts with outlines that are equally long. -/
theorem ShapeTween.start?_eq (source target : Outline) (duration : Float) (easing : Easing)
    (commit : ShapeCommit) :
    start? source target duration easing commit =
      some (start source target duration easing commit) := by
  have hlength := Outline.length_reconcile source.centered target.centered
  rw [start?, Outline.reconcile?_eq, ShapeTween.start]
  generalize Outline.reconcile source.centered target.centered = outlines at hlength ⊢
  obtain ⟨start, target⟩ := outlines
  have hsame : start.length = target.length := hlength
  change (if start.length = target.length then _ else _) = _
  rw [if_pos hsame]
  dsimp only [OutlineBlend.ofOutlines]
  rw [hsame, Nat.min_self, List.take_length, ← hsame, List.take_length]
  rfl

end Animatic
