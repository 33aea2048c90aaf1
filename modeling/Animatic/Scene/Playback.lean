import Animatic.Scene.Drawing

/-!
# Playback

A scene is played together with a host, which runs the functions that scheduled effects call and may
itself act on the scene. Both are kept in one state, with the log of what happened.

* `Playback.apply` runs one effect; a failed effect changes nothing.
* `Playback.update` advances one frame: it fires what is due, then animates.
* `Playback.render` draws the scene as it stands.
-/

namespace Animatic

/-- A scene, its host, and what has been logged. -/
structure World (σ : Type) where
  scene : Scene
  host : σ
  log : Array LogEntry

/-- A world in which nothing has happened. -/
def World.initial {σ : Type} (bounds : Bounds) (host : σ) : World σ :=
  { scene := .empty bounds, host, log := #[] }

/-- A computation on a world; it ends early only by a fault. -/
abbrev Action (σ : Type) (α : Type) := StateT (World σ) (Except Fault) α

/-- How a host runs a function that a scheduled effect calls. -/
abbrev Invoker (σ : Type) := Invocation → Action σ (Except SceneError Unit)

namespace Playback

variable {σ : Type}

/-- Logs some entries. -/
def log (entries : List LogEntry) : Action σ Unit :=
  modify fun world => { world with log := world.log ++ entries.toArray }

/-- Logs one entry. -/
def logOne (level : LogLevel) (message : String) : Action σ Unit :=
  modify fun world => { world with log := world.log.push ⟨level, message⟩ }

/-- Changes the scene. -/
def changeScene (f : Scene → Scene) : Action σ Unit :=
  modify fun world => { world with scene := f world.scene }

/-- Changes the host. -/
def changeHost (f : σ → σ) : Action σ Unit :=
  modify fun world => { world with host := f world.host }

/-- The scene. -/
def scene : Action σ Scene := return (← get).scene

/-- The host. -/
def host : Action σ σ := return (← get).host

/-- A host without a script: every call fails. -/
def noScript : Invoker σ := fun call => return .error (.noScript call.function.name)

/-- Carries out a change of the scene. -/
def enact (change : Change) : Action σ (Except SceneError Unit) := do
  match (← scene).enact change with
  | .error e => return .error e
  | .ok (next, entries) =>
    changeScene fun _ => next
    log entries
    return .ok ()

/-- Runs one effect now. -/
def apply (invoke : Invoker σ) : Effect → Action σ (Except SceneError Unit)
  | .change change => enact change
  | .invoke call => invoke call

/-- Fires a scheduled action; if it fails, that is logged and counted. -/
def fire (invoke : Invoker σ) (action : ScheduledAction) : Action σ Unit := do
  match ← apply invoke action.effect with
  | .ok () => return ()
  | .error e =>
    changeScene fun scene => { scene with failures := scene.failures + 1 }
    logOne .warn ("scheduled action at " ++ Number.fixed 3 (Number.exact action.time)
      ++ "s failed: " ++ e.message)

/-- Fires actions in order. -/
def fireAll (invoke : Invoker σ) : List ScheduledAction → Action σ Unit
  | [] => return ()
  | action :: rest => do
    fire invoke action
    fireAll invoke rest

/-- Moves the displayed primitives by one step. -/
def animate (dt : Float) : Action σ Unit := do
  let (next, entries) ← (← scene).animate dt
  changeScene fun _ => next
  log entries

/-- Advances one frame: fires the actions that are due, then animates. An action that is scheduled
meanwhile waits for the next frame, and a failing one does not stop the frame. -/
def update (invoke : Invoker σ) (dt : Float) : Action σ Unit := do
  changeScene fun scene => { scene with clock := scene.clock + dt }
  let (due, timeline) := (← scene).timeline.drainDue (← scene).clock
  changeScene fun scene => { scene with timeline }
  fireAll invoke due
  animate dt

/-- Advances the clock of a playing scene as a frame would; a negative amount counts as zero. -/
def advanceClock (invoke : Invoker σ) (seconds : Float) : Action σ (Except SceneError Unit) := do
  match (← scene).phase with
  | .recording => return .error (.wrongPhase "advance_clock" .recording)
  | .playing =>
    update invoke (Number.greatest seconds 0)
    return .ok ()

/-- Ends the recording. -/
def finishRecording : Action σ Unit := do
  let (next, entries) := (← scene).finishRecording
  changeScene fun _ => next
  log entries

/-- Draws the scene, logging each draw call. -/
def render : Action σ (List DrawCall) := do
  let calls := (← scene).drawCalls
  log (calls.map DrawCall.logEntry)
  return calls

end Playback

end Animatic
