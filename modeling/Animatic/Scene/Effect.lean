import Animatic.Motion.Channel
import Animatic.Motion.Easing
import Animatic.Value.Basic

/-!
# Effects

What can be scheduled to happen in a scene: a change of the scene itself or a call of a script
function.
-/

namespace Animatic

/-- A call of a script function. -/
structure Invocation where
  function : Script.Function
  arguments : List Value

/-- A change of the scene. -/
inductive Change where
  /-- Puts a primitive on the display list. -/
  | show (id : PrimitiveId)
  /-- Takes a primitive off the display list and drops it with its motions. -/
  | remove (id : PrimitiveId)
  /-- Tweens channels together, each from its value when the change happens. -/
  | tween (id : PrimitiveId) (targets : List (Channel × Float)) (duration : Float)
      (easing : Easing)
  /-- Tweens the outline of `source` into that of `target`, which then takes the place of `source`
  if `replace` is set. -/
  | shapeTween (source target : PrimitiveId) (duration : Float) (easing : Easing)
      (replace : Bool)
  /-- Sets channels at once. -/
  | set (id : PrimitiveId) (targets : List (Channel × Float))
  | setVelocity (id : PrimitiveId) (x y : Float32)

/-- Something that can be scheduled. -/
inductive Effect where
  | change (change : Change)
  | invoke (call : Invocation)

/-- An effect and the scene time at which it fires. -/
structure ScheduledAction where
  time : Float
  effect : Effect

end Animatic
