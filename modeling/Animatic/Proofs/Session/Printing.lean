import Animatic.Player
import Animatic.Proofs.Playback.Changes
import Animatic.Proofs.Playback.Course
import Animatic.Proofs.Session.Rules

/-!
# Printing

What a script has printed stays printed: every line is put behind the others, in calls, in frames
and in frames within them, and whether effects fail or not.

* `PrintsOn`: computations that take back no line.
* `printsOn_rules`: the steps of evaluation; `printsOn_update`: frames.
* `Player.output_update`: a step of a player.
-/

namespace Animatic

open Playback

/-- A computation that takes back no line that has been printed. -/
def PrintsOn {α : Type} (m : Play α) : Prop :=
  ∀ world a next, m.run world = .ok (a, next) →
    world.host.output.toList <+: next.host.output.toList

section

variable {α β : Type} {m : Play α}

/-- What leaves the session alone prints nothing. -/
theorem printsOn_of_host
    (h : ∀ world a next, m.run world = .ok (a, next) → next.host = world.host) : PrintsOn m := by
  intro world a next hrun
  simp [h world a next hrun]

theorem PrintsOn.bind {f : α → Play β} (hm : PrintsOn m) (hf : ∀ a, PrintsOn (f a)) :
    PrintsOn (m >>= f) := by
  intro world b next hrun
  obtain ⟨a, middle, hmiddle, hnext⟩ := Action.bind_eq_ok hrun
  exact (hm world a middle hmiddle).trans (hf a middle b next hnext)

theorem printsOn_pure (a : α) : PrintsOn (pure a) :=
  printsOn_of_host fun _ _ _ h => by cases h; rfl

theorem printsOn_scene : PrintsOn scene := printsOn_of_host fun _ _ _ h => by cases h; rfl

theorem printsOn_session : PrintsOn Play.session := printsOn_of_host fun _ _ _ h => by cases h; rfl

theorem printsOn_log (entries : List LogEntry) : PrintsOn (log entries) :=
  printsOn_of_host fun _ _ _ h => by cases h; rfl

theorem printsOn_logOne (level : LogLevel) (message : String) : PrintsOn (logOne level message) :=
  printsOn_of_host fun _ _ _ h => by cases h; rfl

theorem printsOn_changeScene (f : Scene → Scene) : PrintsOn (changeScene f) :=
  printsOn_of_host fun _ _ _ h => by cases h; rfl

theorem printsOn_changeSession {f : Session → Session} (h : Session.KeepsOutput f) :
    PrintsOn (Play.changeSession f) := by
  intro world a next hrun
  cases hrun
  exact h world.host

end

/-! ## Frames -/

theorem printsOn_enact (change : Change) : PrintsOn (enact change) := by
  refine printsOn_scene.bind fun scene => ?_
  split
  · exact printsOn_pure _
  · exact (printsOn_changeScene _).bind fun _ => (printsOn_log _).bind fun _ => printsOn_pure _

theorem printsOn_animate (dt : Float) : PrintsOn (animate dt) := by
  refine printsOn_of_host fun world _ next h => ?_
  obtain ⟨moved, entries, -, rfl⟩ := of_run_animate h
  rfl

section

variable {invoke : Invoker Session} (hinvoke : ∀ call, PrintsOn (invoke call))

include hinvoke

theorem printsOn_fireAll (due : List ScheduledAction) : PrintsOn (fireAll invoke due) := by
  induction due with
  | nil => exact printsOn_pure ()
  | cons action rest ih =>
    have happly : PrintsOn (apply invoke action.effect) := by
      cases action.effect with
      | change change => exact printsOn_enact change
      | invoke call => exact hinvoke call
    refine PrintsOn.bind (happly.bind fun outcome => ?_) fun _ => ih
    cases outcome with
    | ok => exact printsOn_pure ()
    | error e => exact (printsOn_changeScene _).bind fun _ => printsOn_logOne _ _

theorem printsOn_update (dt : Float) : PrintsOn (update invoke dt) :=
  (printsOn_changeScene _).bind fun _ => printsOn_scene.bind fun _ => printsOn_scene.bind fun _ =>
    (printsOn_changeScene _).bind fun _ =>
      (printsOn_fireAll hinvoke _).bind fun _ => printsOn_animate dt

theorem printsOn_advanceClock (seconds : Float) : PrintsOn (advanceClock invoke seconds) := by
  refine printsOn_scene.bind fun scene => ?_
  split
  · exact printsOn_pure _
  · exact (printsOn_update hinvoke _).bind fun _ => printsOn_pure _

theorem printsOn_elapse (seconds : Float) : PrintsOn (Session.elapse invoke seconds) := by
  refine printsOn_scene.bind fun scene => ?_
  split
  · refine printsOn_scene.bind fun scene => ?_
    split
    · exact (printsOn_changeScene _).bind fun _ => printsOn_pure _
    · exact printsOn_pure _
  · exact printsOn_advanceClock hinvoke seconds

end

/-! ## Evaluation -/

theorem printsOn_buildHost (typeName : String) (positional : List Value)
    (properties : PropertyMap) : PrintsOn (Session.buildHost typeName positional properties) := by
  refine printsOn_session.bind fun session => (printsOn_log _).bind fun _ => ?_
  split
  · exact printsOn_scene.bind fun _ => (printsOn_changeScene _).bind fun _ => printsOn_pure _
  · exact (printsOn_logOne _ _).bind fun _ => printsOn_pure _
  · exact (printsOn_logOne _ _).bind fun _ => printsOn_pure _

theorem printsOn_commonProperties (object : ObjectRef) :
    PrintsOn (Standard.commonProperties object) := by
  unfold Standard.commonProperties
  split
  · exact printsOn_pure ()
  · exact printsOn_session.bind fun _ => printsOn_changeScene _

/-- No step of evaluation takes back a line. -/
theorem printsOn_rules : Play.Rules fun m => PrintsOn m where
  pure := printsOn_pure
  bind := .bind
  look _ := printsOn_scene.bind fun _ => printsOn_pure _
  session := printsOn_session
  log := printsOn_log
  logOne := printsOn_logOne
  changeSession _ := printsOn_changeSession
  schedule _ _ := printsOn_changeScene _
  scheduleAll _ _ := printsOn_changeScene _
  buildHost := printsOn_buildHost
  commonProperties := printsOn_commonProperties
  elapse := printsOn_elapse

/-! ## Players -/

namespace Player

/-- The lines that the script of a player has printed. -/
def output (player : Player) : List String := player.world.host.output.toList

variable {player next : Player} {dt : Float}

/-- What is printed in a step stands behind what was printed before. -/
theorem output_update (h : player.update dt = .ok next) : player.output <+: next.output := by
  obtain ⟨⟨_, world⟩, hrun, hnext⟩ := of_bind_eq_ok h
  cases hnext
  exact printsOn_update (printsOn_rules.outermost printsOn_rules.standard).invoke dt _ _ _ hrun

end Player

end Animatic
