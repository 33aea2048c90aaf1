import Animatic.Geometry.Matching
import Animatic.Motion.Tween
import Animatic.Scene.PrimitiveId

/-!
# Shape tweens

A shape tween drives a whole outline towards another one. Both are centred and reconciled when it
begins, so that every later outline is a blend point by point.
-/

namespace Animatic

/-- Two outlines of equal length that are blended point by point. -/
structure OutlineBlend where
  start : Outline
  target : Outline

namespace OutlineBlend

/-- A blend of two outlines; the longer one is cut to the length of the other. -/
def ofOutlines (start target : Outline) : OutlineBlend :=
  let size := min start.length target.length
  ⟨start.take size, target.take size⟩

/-- The number of points of every blend. -/
def vertexCount (blend : OutlineBlend) : Nat := blend.start.length

/-- The blend at a share of the way. A separator on either side gives a separator. -/
def outlineAt (blend : OutlineBlend) (t : Float32) : Outline :=
  List.zipWith (fun p q => if p.isSeparator || q.isSeparator then .separator else p.blend q t)
    blend.start blend.target

end OutlineBlend

/-- What a finished shape tween leaves behind. -/
structure ShapeCommit where
  outline : Outline
  filled : Bool
  /-- The primitive that takes the place of the one that was tweened. -/
  replacement : Option PrimitiveId

/-- The motion of an outline into another one. -/
structure ShapeTween where
  blend : OutlineBlend
  duration : Float
  elapsed : Float
  easing : Easing
  commit : ShapeCommit

namespace ShapeTween

/-- A tween between two outlines, which are centred and reconciled. -/
def start (source target : Outline) (duration : Float) (easing : Easing) (commit : ShapeCommit) :
    ShapeTween :=
  let (start, target) := Outline.reconcile source.centered target.centered
  { blend := .ofOutlines start target, duration, elapsed := 0, easing, commit }

/-- How far the tween has come. -/
def progress (tween : ShapeTween) : Float := progressAt tween.elapsed tween.duration

/-- The tween `dt` seconds later. -/
def later (tween : ShapeTween) (dt : Float) : ShapeTween :=
  { tween with elapsed := tween.elapsed + dt }

/-- The outline at the tween's progress. -/
def outline (tween : ShapeTween) : Outline :=
  tween.blend.outlineAt (Number.narrow (tween.easing.apply tween.progress))

/-- Whether the tween has reached its target. -/
def isComplete (tween : ShapeTween) : Bool := 1 ≤ tween.progress

/-- The number of points of every outline on the way. -/
def vertexCount (tween : ShapeTween) : Nat := tween.blend.vertexCount

end ShapeTween

end Animatic
