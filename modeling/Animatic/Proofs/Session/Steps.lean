import Animatic.Command.Standard

/-!
# Steps of commands

Before commands act they look at the world and log: they find out about their timing, their
primitives and their function. What methods do then is to schedule something. A property of
computations holds of that if it is built up along them and holds of these steps.

* `Play.QuietRules`: looking and logging.
* `Play.SchedulingRules`: scheduling as well.
-/

namespace Animatic

open Play Playback

/-- Something about a scene for which it does not matter how many effects have failed. -/
def Scene.FailureBlind {α : Type} (view : Scene → α) : Prop :=
  ∀ scene failures, view { scene with failures } = view scene

/-- A property of computations that holds of looking at the world and logging, and is built up along
computations. Nothing that evaluation sees of a scene depends on the number of failed effects. -/
structure Play.QuietRules (K : ∀ {α : Type}, Play α → Prop) : Prop where
  pure : ∀ {α : Type} (a : α), K (pure a)
  bind : ∀ {α β : Type} {m : Play α} {f : α → Play β}, K m → (∀ a, K (f a)) → K (m >>= f)
  look : ∀ {α : Type} {view : Scene → α}, Scene.FailureBlind view →
    K (Playback.scene >>= fun scene => Pure.pure (view scene))
  session : K Play.session
  log : ∀ entries, K (Playback.log entries)
  logOne : ∀ level message, K (Playback.logOne level message)

/-- A property of computations that holds of scheduling as well. -/
structure Play.SchedulingRules (K : ∀ {α : Type}, Play α → Prop) : Prop
    extends Play.QuietRules K where
  schedule : ∀ delay effect, K (changeScene (·.schedule delay effect))
  scheduleAll : ∀ delay effects, K (changeScene (·.scheduleAll delay effects))

namespace Play.QuietRules

variable {K : ∀ {α : Type}, Play α → Prop} (hK : QuietRules K)

include hK

theorem easingOf (settings : Settings) (arguments : Arguments) :
    K (Standard.easingOf settings arguments) := by
  unfold Standard.easingOf
  split
  · split
    · exact hK.pure _
    · exact hK.bind (hK.logOne _ _) fun _ => hK.pure _
  · exact hK.pure _

theorem timing (arguments : Arguments) (durationAt : Nat) :
    K (Standard.timing arguments durationAt) :=
  hK.bind hK.session fun _ => hK.bind (hK.easingOf _ _) fun _ => hK.pure _

theorem hostOf (object : ObjectRef) (operation : String) :
    K (Standard.hostOf object operation) := by
  unfold Standard.hostOf
  split
  · exact hK.bind (hK.logOne _ _) fun _ => hK.pure _
  · exact hK.pure _

mutual

theorem hostsOf (operation : String) (value : Value) :
    K (Standard.hostsOf operation value) := by
  cases value with
  | object object =>
    rw [Standard.hostsOf]
    exact hK.bind (hK.hostOf object operation) fun _ => hK.pure _
  | array items =>
    rw [Standard.hostsOf]
    exact hostsOfAll operation items
  | _ =>
    rw [Standard.hostsOf] <;> first
      | exact hK.bind (hK.logOne _ _) fun _ => hK.pure _
      | (intro _ h; cases h)

theorem hostsOfAll (operation : String) (values : List Value) :
    K (Standard.hostsOfAll operation values) := by
  cases values with
  | nil =>
    rw [Standard.hostsOfAll]
    exact hK.pure _
  | cons value rest =>
    rw [Standard.hostsOfAll]
    exact hK.bind (hostsOf operation value) fun _ =>
      hK.bind (hostsOfAll operation rest) fun _ => hK.pure _

end

theorem scheduledFunction (value : Option Value) :
    K (Standard.scheduledFunction value) := by
  unfold Standard.scheduledFunction
  split
  · exact hK.pure _
  · refine hK.bind hK.session fun _ => ?_
    split
    · exact hK.pure _
    · exact hK.bind (hK.logOne _ _) fun _ => hK.pure _
  · exact hK.bind (hK.logOne _ _) fun _ => hK.pure _

end Play.QuietRules

namespace Play.SchedulingRules

variable {K : ∀ {α : Type}, Play α → Prop} (hK : SchedulingRules K)

include hK

private theorem onPrimitive {object : ObjectRef} {operation : String}
    {act : PrimitiveId → Play Value} (h : ∀ id, K (act id)) :
    K (Standard.onPrimitive object operation act) := by
  refine hK.bind (hK.hostOf object operation) fun host => ?_
  cases host with
  | none => exact hK.pure _
  | some id => exact h id

private theorem morphing (operation : String) (replace : Bool) (object : ObjectRef)
    (arguments : Arguments) : K (Standard.morphing operation replace object arguments) := by
  refine hK.onPrimitive fun source => ?_
  split
  · exact hK.bind (hK.logOne _ _) fun _ => hK.pure _
  · exact hK.onPrimitive fun _ => hK.bind (hK.timing _ _) fun _ =>
      hK.bind (hK.schedule _ _) fun _ => hK.pure _

private theorem tweening (operation : String) (targets : Arguments → List (Channel × Float))
    (object : ObjectRef) (arguments : Arguments) :
    K (Standard.tweening operation targets object arguments) :=
  hK.onPrimitive fun _ => hK.bind (hK.timing _ _) fun _ =>
    hK.bind (hK.schedule _ _) fun _ => hK.pure _

private theorem changing (operation : String) (change : PrimitiveId → Arguments → Change)
    (object : ObjectRef) (arguments : Arguments) :
    K (Standard.changing operation change object arguments) :=
  hK.onPrimitive fun _ => hK.bind (hK.schedule _ _) fun _ => hK.pure _

/-- A method finds out about what it is to do, and schedules it. -/
theorem method (operation : Operation) (object : ObjectRef) (arguments : Arguments) :
    K (Standard.method operation object arguments) := by
  cases operation with
  | draw =>
    exact hK.onPrimitive fun _ => hK.bind (hK.timing _ _) fun _ =>
      hK.bind (hK.scheduleAll _ _) fun _ => hK.pure _
  | remove => exact hK.onPrimitive fun _ => hK.bind (hK.schedule _ _) fun _ => hK.pure _
  | morph | morphTo => exact hK.morphing _ _ object arguments
  | setColor | setPosition | velocity =>
    rw [Standard.method]
    exact hK.changing _ _ object arguments
  | _ => exact hK.tweening _ _ object arguments

end Play.SchedulingRules

end Animatic
