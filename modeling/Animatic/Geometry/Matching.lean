import Animatic.Geometry.Outline

/-!
# Matching outlines

Two outlines can be blended point by point once they have equally many loops and paired loops have
equally many points. `Outline.reconcile` brings them there: the one with fewer loops gets loops of a
single point, and every loop is resampled to the number of points that its pair gets.

* `resample` keeps the first and the last point and blends neighbours in between.
* `closeLoops` lets a loop end where it starts, so that resampling walks its last edge too.
-/

namespace Animatic

/-- The point at index `i` of a loop that is resampled by `step`: a blend of the two points that it
falls between. -/
def resampledPoint (loop : List Point) (step : Float) (i : Nat) : Point :=
  let place := Float.ofNat i * step
  let index := min (Number.truncWithin Number.longLimit (Number.exact place)) (loop.length - 2)
  let share := Number.narrow (place - Float.ofNat index)
  (loop.getD index .origin).blend (loop.getD (index + 1) .origin) share

/-- A loop with another number of points. -/
def resample (loop : List Point) (count : Nat) : List Point :=
  if count = 0 then []
  else if loop.length = count then loop
  else
    match loop with
    | [] => List.replicate count .origin
    | [first] => List.replicate count first
    | first :: second :: rest =>
      if count = 1 then [first]
      else
        let loop := first :: second :: rest
        let step := Float.ofNat (loop.length - 1) / Float.ofNat (count - 1)
        first :: (List.range (count - 2)).map (fun i => resampledPoint loop step (i + 1))
          ++ [rest.getLastD second]

/-- A loop of at least three points, with its first point repeated at its end unless it already ends
there. -/
def closeLoop (loop : List Point) : List Point :=
  match loop with
  | first :: _ :: last :: rest =>
    if first.same (rest.getLastD last) then loop else loop ++ [first]
  | _ => loop

namespace Outline

/-- Every loop of an outline closed. -/
def closeLoops (outline : Outline) : Outline := ofLoops (outline.loops.map closeLoop)

/-- The least number of points of a loop that is to be blended, so that the corners of coarse shapes
survive. -/
def leastLoopSize : Nat := 12

/-- At least `count` loops: single points at the start of the last loop are added. -/
def padLoops (loops : List (List Point)) (count : Nat) : List (List Point) :=
  let anchor := (loops.getLast?.bind List.head?).getD .origin
  loops ++ List.replicate (count - loops.length) [anchor]

/-- The share of a budget of points that a loop gets for its part of all points. -/
def share (budget size total : Nat) : Nat :=
  Number.roundWithin Number.longLimit
    (Number.exact (Float.ofNat budget * Float.ofNat size / Float.ofNat total))

/-- The number of points in some loops. -/
def pointCount (loops : List (List Point)) : Nat :=
  loops.foldr (fun loop count => loop.length + count) 0

/-- Two outlines brought to equally many loops, and paired loops to equally many points. -/
def reconcile (start target : Outline) : Outline × Outline :=
  let a := padLoops start.loops target.loops.length
  let b := padLoops target.loops a.length
  let totalA := pointCount a
  let totalB := pointCount b
  let budget := max totalA totalB
  let pairs := (a.zip b).map fun (loopA, loopB) =>
    let count := max (max leastLoopSize (share budget loopA.length totalA))
      (share budget loopB.length totalB)
    (resample loopA count, resample loopB count)
  (ofLoops (pairs.map (·.1)), ofLoops (pairs.map (·.2)))

end Outline

end Animatic
