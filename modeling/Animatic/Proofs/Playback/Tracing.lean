import Animatic.Proofs.Playback.Course

/-!
# Computations that have courses

A computation is traceable if each of its runs has a course: all that it does is done step by step.
Traceable computations make up traceable ones, and a frame is traceable if the calls that it fires
are.

* `Traceable.bind` and its companions build up traces along a computation.
* `traceableAt_update`: a frame of playback.
-/

namespace Animatic

open Playback

variable {σ : Type} {α β : Type} {gate : Scene → Float → Prop} {s : Stage σ}

/-- Every run of a computation from a stage has a course. -/
def TraceableAt (gate : Scene → Float → Prop) (s : Stage σ) (m : Action σ α) : Prop :=
  ∀ a next, m.run s.world = .ok (a, next) →
    ∃ ms last, Course gate m s ms a last ∧ last.world = next

/-- Every run of a computation has a course. -/
def Traceable (gate : Scene → Float → Prop) (m : Action σ α) : Prop := ∀ s, TraceableAt gate s m

/-- Lets every frame through. -/
def anyFrame : Scene → Float → Prop := fun _ _ => True

/-! ## Composition -/

theorem traceable_pure (a : α) : Traceable gate (pure a : Action σ α) := by
  intro s b next h
  obtain ⟨rfl, rfl⟩ := Prod.mk.inj (Except.ok.inj h)
  exact ⟨[], s, .pure _ s, rfl⟩

theorem TraceableAt.bind {m : Action σ α} {f : α → Action σ β} (hm : TraceableAt gate s m)
    (hf : ∀ a, Traceable gate (f a)) : TraceableAt gate s (m >>= f) := by
  intro b next h
  obtain ⟨a, middle, hfirst, hrest⟩ := Action.bind_eq_ok h
  obtain ⟨ms, stage, hcourse, rfl⟩ := hm a middle hfirst
  obtain ⟨ms', last, hcourse', hlast⟩ := hf a stage b next hrest
  exact ⟨ms ++ ms', last, .bind hcourse hcourse', hlast⟩

theorem Traceable.bind {m : Action σ α} {f : α → Action σ β} (hm : Traceable gate m)
    (hf : ∀ a, Traceable gate (f a)) : Traceable gate (m >>= f) := fun s => (hm s).bind hf

theorem Traceable.map {m : Action σ α} (hm : Traceable gate m) (g : α → β) :
    Traceable gate (g <$> m) := by
  rw [map_eq_pure_bind]
  exact hm.bind fun a => traceable_pure (g a)

/-- What follows a look at the world may rely on it. -/
theorem traceableAt_get_bind {f : World σ → Action σ β} (h : TraceableAt gate s (f s.world)) :
    TraceableAt gate s (get >>= f) := by
  intro b next hrun
  obtain ⟨ms, last, hcourse, hlast⟩ := h b next hrun
  exact ⟨[] ++ ms, last, .bind (.get s) hcourse, hlast⟩

/-! ## Steps -/

theorem traceableAt_modify {f : World σ → World σ} {scheduled : List ScheduledAction}
    (h : s.scene.Act scheduled (f s.world).scene) :
    TraceableAt gate s (modify f : Action σ PUnit) := by
  intro _ next hrun
  obtain ⟨-, rfl⟩ := Prod.mk.inj (Except.ok.inj hrun)
  exact ⟨_, _, .act h, rfl⟩

theorem traceableAt_changeScene {f : Scene → Scene} {scheduled : List ScheduledAction}
    (h : s.scene.Act scheduled (f s.scene)) :
    TraceableAt gate s (changeScene f : Action σ Unit) := traceableAt_modify h

theorem traceable_changeHost (f : σ → σ) : Traceable gate (changeHost f : Action σ Unit) :=
  fun _ => traceableAt_modify (.keep _)

theorem traceable_log (entries : List LogEntry) : Traceable gate (log entries : Action σ Unit) :=
  fun _ => traceableAt_modify (.keep _)

theorem traceable_logOne (level : LogLevel) (message : String) :
    Traceable gate (logOne level message : Action σ Unit) :=
  fun _ => traceableAt_modify (.keep _)

theorem traceable_scene : Traceable gate (scene : Action σ Scene) := fun _ =>
  traceableAt_get_bind (traceable_pure _ _)

theorem traceable_host : Traceable gate (host : Action σ σ) := fun _ =>
  traceableAt_get_bind (traceable_pure _ _)

/-- What follows a look at the scene may rely on it. -/
theorem traceableAt_scene_bind {f : Scene → Action σ β} (h : TraceableAt gate s (f s.scene)) :
    TraceableAt gate s (scene >>= f) := by
  rw [scene, bind_assoc]
  refine traceableAt_get_bind ?_
  rwa [pure_bind]

theorem traceable_schedule (delay : Float) (effect : Effect) :
    Traceable gate (changeScene (·.schedule delay effect) : Action σ Unit) :=
  fun _ => traceableAt_changeScene (.schedule _ delay effect)

theorem traceable_scheduleAll (delay : Float) (effects : List Effect) :
    Traceable gate (changeScene (·.scheduleAll delay effects) : Action σ Unit) :=
  fun _ => traceableAt_changeScene (.scheduleAll _ delay effects)

theorem traceable_finishRecording : Traceable gate (finishRecording : Action σ Unit) := fun _ =>
  traceableAt_scene_bind <| (traceableAt_changeScene (.finishRecording _)).bind fun _ =>
    traceable_log _

theorem traceable_enact (change : Change) :
    Traceable gate (enact change : Action σ (Except SceneError Unit)) := by
  refine fun s => traceableAt_scene_bind ?_
  split
  · exact traceable_pure _ s
  · rename_i next entries henact
    exact (traceableAt_changeScene (.enact henact)).bind fun _ =>
      (traceable_log _).bind fun _ => traceable_pure _

/-! ## Frames -/

section

variable {invoke : Invoker σ} (h : ∀ call, Traceable gate (invoke call))

include h

theorem traceable_apply (effect : Effect) : Traceable gate (apply invoke effect) := by
  cases effect with
  | change change => exact traceable_enact change
  | invoke call => exact h call

/-- Actions that fire have a course. -/
theorem exists_firings {due : List ScheduledAction} {next : World σ} (frame : Nat)
    (hrun : (fireAll invoke due).run s.world = .ok ((), next)) :
    ∃ ms last, Firings gate invoke frame due s ms last ∧ last.world = next := by
  induction due generalizing s with
  | nil =>
    obtain ⟨-, rfl⟩ := Prod.mk.inj (Except.ok.inj hrun)
    exact ⟨[], s, .none s, rfl⟩
  | cons action rest ih =>
    obtain ⟨_, fired, hfire, hrest⟩ := Action.bind_eq_ok hrun
    obtain ⟨outcome, applied, happly, -⟩ := Action.bind_eq_ok hfire
    rw [run_fire happly] at hfire
    obtain ⟨-, rfl⟩ := Prod.mk.inj (Except.ok.inj hfire)
    obtain ⟨ms, middle, hcourse, rfl⟩ := traceable_apply h action.effect s outcome applied happly
    obtain ⟨ms', last, hfirings, hlast⟩ :=
      ih (s := middle.withWorld (middle.world.settle action outcome)) hrest
    exact ⟨_, last, .more hcourse hfirings, hlast⟩

/-- A frame has a course. -/
theorem exists_frame {dt : Float} {next : World σ}
    (hrun : (update invoke dt).run s.world = .ok ((), next)) :
    ∃ ms last, Frame gate invoke dt s ms last ∧ last.world = next := by
  rw [run_update] at hrun
  obtain ⟨_, fired, hfire, hanimate⟩ := Action.bind_eq_ok hrun
  obtain ⟨ms, stage, hfirings, rfl⟩ := exists_firings h s.frames hfire
  obtain ⟨moved, entries, hmoved, rfl⟩ := of_run_animate hanimate
  exact ⟨_, _, .intro hfirings hmoved, rfl⟩

theorem traceableAt_update {dt : Float} (hgate : gate s.scene dt) :
    TraceableAt gate s (update invoke dt) := by
  intro _ next hrun
  obtain ⟨ms, last, hframe, hlast⟩ := exists_frame h hrun
  exact ⟨ms, last, .frame hgate hframe, hlast⟩

theorem traceable_advanceClock (seconds : Float)
    (hgate : ∀ scene : Scene, scene.phase = .playing → gate scene (Number.greatest seconds 0)) :
    Traceable gate (advanceClock invoke seconds) := by
  refine fun s => traceableAt_scene_bind ?_
  split
  · exact traceable_pure _ s
  · rename_i hphase
    exact (traceableAt_update h (hgate _ hphase)).bind fun _ => traceable_pure _

end

end Animatic
