import Animatic.Log
import Animatic.Scene.Primitive
import Animatic.Scene.Timeline

/-!
# Scenes

A scene owns primitives, keeps the list of those that are displayed, and the timeline of what is
still to happen. While a script sets it up it is recording: what the script asks for is stamped with
the offset reached so far. After that it is playing, and stamps are relative to the clock.

* `Scene.insert` takes a primitive in; identities count up and are never used again.
* `Scene.schedule` and `Scene.scheduleAll` stamp effects and put them on the timeline.
* `Scene.enact` carries out one change or tells why it cannot.
* `Scene.animate` moves the displayed primitives by one step.
-/

namespace Animatic

/-- Whether a scene is being set up or played. -/
inductive Phase where
  | recording
  | playing
  deriving DecidableEq, Repr

/-- The name of a phase. -/
def Phase.name : Phase → String
  | recording => "recording"
  | playing => "playing"

/-- Why something cannot be done in a scene. -/
inductive SceneError where
  | unknownPrimitive (id : PrimitiveId)
  /-- An operation that belongs to the other phase. -/
  | wrongPhase (operation : String) (phase : Phase)
  /-- A function is to be called and there is no script. -/
  | noScript (functionName : String)
  /-- A function is to be called inside too many others. -/
  | tooDeep (functionName : String)
  deriving DecidableEq, Repr

/-- The wording of an error. -/
def SceneError.message : SceneError → String
  | unknownPrimitive id => "no primitive with id " ++ id.text
  | wrongPhase operation phase => operation ++ " is not allowed while " ++ phase.name
  | noScript functionName => "script error: no script to run " ++ functionName ++ "()"
  | tooDeep functionName => "script error: " ++ functionName ++ "(): call depth limit reached"

/-- Primitives, what is displayed of them, and what is still to happen to them. -/
structure Scene where
  /-- The primitives by number; a dropped one leaves its place empty. -/
  slots : Array (Option Primitive)
  /-- The displayed primitives in draw order. -/
  display : List PrimitiveId
  timeline : Timeline
  phase : Phase
  /-- The time reached while recording. -/
  offset : Float
  /-- The time reached while playing. -/
  clock : Float
  bounds : Bounds
  /-- The number of scheduled effects that failed when they fired. -/
  failures : Nat

namespace Scene

/-- An empty scene that is recording. -/
def empty (bounds : Bounds) : Scene :=
  { slots := #[], display := [], timeline := .empty, phase := .recording, offset := 0, clock := 0,
    bounds, failures := 0 }

/-! ## Ownership -/

/-- The primitive of an identity. -/
def get? (scene : Scene) (id : PrimitiveId) : Option Primitive := scene.slots[id.number]?.join

/-- Whether a primitive is owned. -/
def contains (scene : Scene) (id : PrimitiveId) : Bool := (scene.get? id).isSome

/-- Whether a primitive is displayed. -/
def isDisplayed (scene : Scene) (id : PrimitiveId) : Bool := scene.display.contains id

/-- The number of primitives that are owned. -/
def ownedCount (scene : Scene) : Nat := scene.slots.toList.countP Option.isSome

/-- The owned primitives in the order of their identities. -/
def owned (scene : Scene) : List (PrimitiveId × Primitive) :=
  scene.slots.toList.zipIdx.filterMap fun (slot, number) => slot.map ((⟨number⟩, ·))

/-- Takes a primitive in. It is not displayed until it is shown. -/
def insert (scene : Scene) (p : Primitive) : PrimitiveId × Scene :=
  (⟨scene.slots.size⟩, { scene with slots := scene.slots.push (some p) })

/-- Puts a changed primitive back. -/
def put (scene : Scene) (id : PrimitiveId) (p : Primitive) : Scene :=
  { scene with slots := scene.slots.setIfInBounds id.number (some p) }

/-- Gives up a primitive. -/
def disown (scene : Scene) (id : PrimitiveId) : Scene :=
  { scene with slots := scene.slots.setIfInBounds id.number none }

/-- The displayed primitives in draw order. -/
def displayed (scene : Scene) : List (PrimitiveId × Primitive) :=
  scene.display.filterMap fun id => (scene.get? id).map ((id, ·))

/-! ## Scheduling -/

/-- The time that stamps are relative to. -/
def now (scene : Scene) : Float :=
  match scene.phase with
  | .recording => scene.offset
  | .playing => scene.clock

/-- The number of pending actions. -/
def pending (scene : Scene) : Nat := scene.timeline.size

/-- The stamp of an effect after a delay, which counts as zero when it is negative. -/
def stamp (scene : Scene) (delay : Float) : Float := scene.now + Number.greatest delay 0

/-- Schedules an effect. -/
def schedule (scene : Scene) (delay : Float) (effect : Effect) : Scene :=
  { scene with timeline := scene.timeline.insert ⟨scene.stamp delay, effect⟩ }

/-- Schedules several effects for one time, in order. -/
def scheduleAll (scene : Scene) (delay : Float) (effects : List Effect) : Scene :=
  let time := scene.stamp delay
  { scene with timeline := scene.timeline.insertBatch (effects.map (⟨time, ·⟩)) }

/-- Advances the offset of a recording scene; a negative amount counts as zero. -/
def scheduleDelay (scene : Scene) (seconds : Float) : Except SceneError Scene :=
  match scene.phase with
  | .recording => .ok { scene with offset := scene.offset + Number.greatest seconds 0 }
  | .playing => .error (.wrongPhase "schedule_delay" .playing)

/-- Ends the recording. -/
def finishRecording (scene : Scene) : Scene × List LogEntry :=
  match scene.phase with
  | .playing => (scene, [])
  | .recording =>
    ({ scene with phase := .playing },
      [⟨.info, "recording finished: " ++ toString scene.ownedCount ++ " primitives, "
        ++ toString scene.timeline.size ++ " actions over "
        ++ Number.fixed 2 (Number.exact scene.offset) ++ "s"⟩])

/-! ## Changes -/

/-- The primitive of an identity, or the error that there is none. -/
def require (scene : Scene) (id : PrimitiveId) : Except SceneError Primitive :=
  match scene.get? id with
  | some p => .ok p
  | none => .error (.unknownPrimitive id)

/-- Takes a primitive off the display list and gives it up. -/
def remove (scene : Scene) (id : PrimitiveId) : Except SceneError Scene := do
  let _ ← scene.require id
  return { scene.disown id with display := scene.display.filter (· != id) }

/-- Starts a shape tween; one that is running on the primitive is discarded. -/
def startShapeTween (scene : Scene) (source target : PrimitiveId) (duration : Float)
    (easing : Easing) (replace : Bool) : Except SceneError (Scene × List LogEntry) := do
  let goal ← scene.require target
  let p ← scene.require source
  let commit : ShapeCommit :=
    { outline := goal.outline.centered
      filled := goal.filled
      replacement := if replace then some target else none }
  let outline := if p.closed then p.outline.closeLoops else p.outline
  let tween := ShapeTween.start outline goal.outline.closeLoops duration easing commit
  let started : LogEntry :=
    ⟨.debug, "shape tween " ++ source.text ++ " -> " ++ target.text ++ " over "
      ++ Number.plainText duration ++ "s with " ++ toString tween.vertexCount ++ " vertices"⟩
  let replaced : List LogEntry :=
    if p.shapeTween.isSome then [⟨.debug, "shape tween replaced before completion"⟩] else []
  return (scene.put source { p with shapeTween := some tween }, started :: replaced)

/-- Carries out a change. -/
def enact (scene : Scene) : Change → Except SceneError (Scene × List LogEntry)
  | .show id => do
    let _ ← scene.require id
    return (if scene.isDisplayed id then scene
      else { scene with display := scene.display ++ [id] }, [])
  | .remove id => do
    return (← scene.remove id, [])
  | .tween id targets duration easing => do
    let p ← scene.require id
    return (scene.put id (targets.foldl
      (fun p (channel, target) => p.startTween channel target duration easing) p), [])
  | .shapeTween source target duration easing replace =>
    scene.startShapeTween source target duration easing replace
  | .set id targets => do
    let p ← scene.require id
    return (scene.put id (targets.foldl (fun p (channel, value) => p.set channel value) p), [])
  | .setVelocity id x y => do
    let p ← scene.require id
    return (scene.put id { p with velocityX := x, velocityY := y }, [])

/-! ## Animation -/

/-- Advances displayed primitives and collects, in draw order, which of them are to be replaced and
by what. -/
def advanceAll (dt : Float) :
    List PrimitiveId → Scene → Except Fault (Scene × List (PrimitiveId × PrimitiveId))
  | [], scene => .ok (scene, [])
  | id :: rest, scene =>
    match scene.get? id with
    | none => advanceAll dt rest scene
    | some p => do
      let (p, commit) ← p.advance dt scene.bounds
      let (scene, swaps) ← advanceAll dt rest (scene.put id p)
      return (scene, match commit.bind (·.replacement) with
        | some target => (id, target) :: swaps
        | none => swaps)

/-- Puts `target` in the place of `source` and at its transform, and gives `source` up. A target
that is gone, or that is the source itself, leaves the scene as it is. -/
def swap (scene : Scene) (source target : PrimitiveId) : Scene × List LogEntry :=
  match scene.get? source with
  | none => (scene, [])
  | some old =>
    let rest := scene.disown source
    match rest.get? target with
    | none =>
      (scene, [⟨.warn, "morph target " ++ target.text ++ " vanished; keeping " ++ source.text⟩])
    | some new =>
      let others := scene.display.filter (· != target)
      let display :=
        if others.contains source then others.map fun id => if id = source then target else id
        else others ++ [target]
      ({ rest.put target { new with transform := old.transform } with display }, [])

/-- Carries out replacements one after the other. -/
def swapAll : List (PrimitiveId × PrimitiveId) → Scene → Scene × List LogEntry
  | [], scene => (scene, [])
  | (source, target) :: rest, scene =>
    let (scene, first) := scene.swap source target
    let (scene, others) := swapAll rest scene
    (scene, first ++ others)

/-- Moves the displayed primitives by `dt` seconds, then carries out the replacements that became
due. -/
def animate (scene : Scene) (dt : Float) : Except Fault (Scene × List LogEntry) := do
  let (scene, swaps) ← advanceAll dt scene.display scene
  return swapAll swaps scene

end Scene

end Animatic
