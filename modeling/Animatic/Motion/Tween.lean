import Animatic.Motion.Channel
import Animatic.Motion.Easing

/-!
# Property tweens

A tween drives one channel from the value it had when the tween began to a target value.
-/

namespace Animatic

/-- The progress of a motion, at most one. A motion whose duration is not positive is complete. -/
def progressAt (elapsed duration : Float) : Float :=
  if duration ≤ 0 then 1 else Number.least (elapsed / duration) 1

/-- The motion of one channel from one value to another. -/
structure Tween where
  channel : Channel
  start : Float
  target : Float
  duration : Float
  elapsed : Float
  easing : Easing

namespace Tween

/-- How far the tween has come. -/
def progress (tween : Tween) : Float := progressAt tween.elapsed tween.duration

/-- The value at a progress. -/
def valueAt (tween : Tween) (progress : Float) : Float :=
  let share := tween.easing.apply progress
  tween.start * (1 - share) + tween.target * share

/-- The tween `dt` seconds later. -/
def later (tween : Tween) (dt : Float) : Tween := { tween with elapsed := tween.elapsed + dt }

/-- Whether the tween has reached its target. -/
def isComplete (tween : Tween) : Bool := 1 ≤ tween.progress

end Tween

end Animatic
