import Animatic.Proofs.Playback.Clock
import Animatic.Proofs.Session.Contracts

/-!
# Recording

A script that runs while a scene is recorded touches nothing that is there: it takes new primitives
in, adds actions to the timeline, and moves the offset on. What it did is told by records.

* `Record`, `Scene.record`: what a script does to the scene, one thing after the other.
* `Scene.Recorded`: what records change, and what they leave as it is.
* `Scene.recording_of_course`: whatever has been done to a scene that is being recorded, it is in
  order.
* `Session.recording_lawful`: what a script does is told by records.
* `Session.evaluation_recorded`: a script, its statements and its calls, in any scene that is being
  recorded.
-/

namespace Animatic

open Number Timeline

/-- A scene that is being recorded: its actions are in order, and its offset is not before the
start. -/
structure Scene.Recording (scene : Scene) : Prop where
  phase : scene.phase = .recording
  ascending : Ascending scene.timeline.actions
  offset : Elapsed scene.offset

/-! ## Records -/

/-- Something that a script does to a scene while it is recorded. -/
inductive Record where
  /-- A primitive is constructed. -/
  | build (p : Primitive)
  /-- A call with some arguments adds to the timeline. -/
  | book (arguments : Arguments) (booking : Booking)
  /-- The script waits. -/
  | wait (seconds : Float)

namespace Record

/-- The primitive that is taken in. -/
def primitive? : Record → Option Primitive
  | build p => some p
  | _ => none

/-- The offset behind a record: a wait moves it on by its seconds, if there are any. -/
def advance (offset : Float) : Record → Float
  | wait seconds => offset + greatest seconds 0
  | _ => offset

/-- The actions that are added at an offset: each has the delay of its call, if there is any, from
the offset on. -/
def actions (offset : Float) : Record → List ScheduledAction
  | book arguments booking =>
    (booking.effects arguments).map (⟨offset + greatest (booking.delay arguments) 0, ·⟩)
  | _ => []

/-- The actions that some records add from an offset on. -/
def allActions (offset : Float) : List Record → List ScheduledAction
  | [] => []
  | record :: rest => record.actions offset ++ allActions (record.advance offset) rest

theorem allActions_append (offset : Float) (records rest : List Record) :
    allActions offset (records ++ rest) =
      allActions offset records ++ allActions (records.foldl advance offset) rest := by
  induction records generalizing offset with
  | nil => rfl
  | cons record records ih =>
    rw [List.cons_append, allActions, allActions, ih, List.append_assoc, List.foldl_cons]

end Record

namespace Scene

variable {scene middle next : Scene}

/-- A scene behind a record. -/
def record (scene : Scene) : Record → Scene
  | .build p => (scene.insert p).2
  | .book arguments booking => booking.enter arguments scene
  | .wait seconds => { scene with offset := scene.offset + greatest seconds 0 }

/-- What becomes of a scene by some records. -/
structure Recorded (scene : Scene) (records : List Record) (next : Scene) : Prop where
  recording : next.Recording
  clock : next.clock = scene.clock
  failures : next.failures = scene.failures
  display : next.display = scene.display
  /-- Every primitive is as it was, and in its place; the new ones stand behind. -/
  primitives : next.slots.toList =
    scene.slots.toList ++ (records.filterMap Record.primitive?).map some
  /-- What was pending is pending, in the same order. -/
  pending : scene.timeline.actions.Sublist next.timeline.actions
  /-- What is pending is what was pending and what the records add, in firing order. -/
  queue : InFiringOrder (scene.timeline.actions ++ Record.allActions scene.offset records)
    next.timeline.actions
  offset : next.offset = records.foldl Record.advance scene.offset
  /-- The offset does not go back. -/
  onwards : scene.offset ≤ next.offset

/-! ## What records do -/

theorem Recording.recorded_nil (h : scene.Recording) : scene.Recorded [] scene where
  recording := h
  clock := rfl
  failures := rfl
  display := rfl
  primitives := (List.append_nil _).symm
  pending := .refl _
  queue := by
    rw [Record.allActions, List.append_nil]
    exact h.ascending.ordered.inFiringOrder
  offset := rfl
  onwards := le_self_of_le h.offset.nonneg

/-- What arrives later fires behind what arrived before it. -/
private theorem inFiringOrder_append {pending more added queue last : List ScheduledAction}
    (h : InFiringOrder (pending ++ more) queue) (h' : InFiringOrder (queue ++ added) last) :
    InFiringOrder (pending ++ (more ++ added)) last where
  same := by
    rw [← List.append_assoc]
    exact h'.same.trans (h.same.append_right added)
  sorted := h'.sorted
  ties time := by
    rw [h'.ties, List.filter_append, h.ties, ← List.filter_append, List.append_assoc]

theorem Recorded.append {records rest : List Record} (h : scene.Recorded records middle)
    (h' : middle.Recorded rest next) : scene.Recorded (records ++ rest) next where
  recording := h'.recording
  clock := h'.clock.trans h.clock
  failures := h'.failures.trans h.failures
  display := h'.display.trans h.display
  primitives := by
    rw [h'.primitives, h.primitives, List.filterMap_append, List.map_append, List.append_assoc]
  pending := h.pending.trans h'.pending
  queue := by
    rw [Record.allActions_append, ← h.offset]
    exact inFiringOrder_append h.queue h'.queue
  offset := by rw [h'.offset, h.offset, List.foldl_append]
  onwards := le_trans_time h.onwards h'.onwards

theorem Recording.recorded_build (h : scene.Recording) (p : Primitive) :
    scene.Recorded [.build p] (scene.record (.build p)) where
  recording := ⟨h.phase, h.ascending, h.offset⟩
  clock := rfl
  failures := rfl
  display := rfl
  primitives := Array.toList_push
  pending := .refl _
  queue := h.recorded_nil.queue
  offset := rfl
  onwards := h.recorded_nil.onwards

theorem Recording.recorded_wait (h : scene.Recording) (seconds : Float) :
    scene.Recorded [.wait seconds] (scene.record (.wait seconds)) where
  recording := ⟨h.phase, h.ascending, (h.offset.add (nonneg_greatest seconds)).1⟩
  clock := rfl
  failures := rfl
  display := rfl
  primitives := (List.append_nil _).symm
  pending := .refl _
  queue := h.recorded_nil.queue
  offset := rfl
  onwards := (h.offset.add (nonneg_greatest seconds)).2

theorem Recording.stamp_eq (h : scene.Recording) (delay : Float) :
    scene.stamp delay = scene.offset + greatest delay 0 := by rw [stamp, now, h.phase]

theorem Recording.timely_stamp (h : scene.Recording) (delay : Float) :
    Timely (scene.stamp delay) := by
  rw [h.stamp_eq]
  exact (h.offset.add (nonneg_greatest delay)).1.timely

/-- Actions of one stamp are added. -/
private theorem Recording.of_queue (h : scene.Recording) {delay : Float} {effects : List Effect}
    {timeline : Timeline}
    (hqueue : InFiringOrder (scene.timeline.actions ++ effects.map (⟨scene.stamp delay, ·⟩))
      timeline.actions) : Recording { scene with timeline } := by
  refine ⟨h.phase, hqueue.ascending fun a ha => ?_, h.offset⟩
  rcases List.mem_append.mp ha with ha | ha
  · exact h.ascending.timely a ha
  · obtain ⟨_, -, rfl⟩ := List.mem_map.mp ha
    exact h.timely_stamp delay

private theorem Recording.queue_schedule (h : scene.Recording) (delay : Float) (effect : Effect) :
    InFiringOrder (scene.timeline.actions ++ [effect].map (⟨scene.stamp delay, ·⟩))
      (scene.schedule delay effect).timeline.actions :=
  h.ascending.ordered.inFiringOrder.insert h.ascending.ordered.numbers (h.timely_stamp delay).number

private theorem Recording.queue_scheduleAll (h : scene.Recording) (delay : Float)
    (effects : List Effect) :
    InFiringOrder (scene.timeline.actions ++ effects.map (⟨scene.stamp delay, ·⟩))
      (scene.scheduleAll delay effects).timeline.actions := by
  refine h.ascending.ordered.inFiringOrder.insertBatch h.ascending.timely fun a ha => ?_
  obtain ⟨_, -, rfl⟩ := List.mem_map.mp ha
  exact h.timely_stamp delay

private theorem Recording.recorded_book (h : scene.Recording) {arguments : Arguments}
    {booking : Booking} {timeline : Timeline}
    (hqueue : InFiringOrder (scene.timeline.actions ++
      (booking.effects arguments).map (⟨scene.stamp (booking.delay arguments), ·⟩))
      timeline.actions)
    (hpending : scene.timeline.actions.Sublist timeline.actions) :
    scene.Recorded [.book arguments booking] { scene with timeline } where
  recording := h.of_queue hqueue
  clock := rfl
  failures := rfl
  display := rfl
  primitives := (List.append_nil _).symm
  pending := hpending
  queue := by
    rw [h.stamp_eq] at hqueue
    rw [Record.allActions, Record.allActions, List.append_nil]
    exact hqueue
  offset := rfl
  onwards := h.recorded_nil.onwards

private theorem Recording.recorded_booking (h : scene.Recording) (arguments : Arguments)
    (booking : Booking) :
    scene.Recorded [.book arguments booking] (booking.enter arguments scene) := by
  cases booking with
  | change single | call function =>
    exact h.recorded_book (h.queue_schedule _ _) (sublist_insert _ _)
  | changes all =>
    exact h.recorded_book (h.queue_scheduleAll _ _) (h.ascending.sublist_insertBatch _)

theorem Recording.recorded_record (h : scene.Recording) (record : Record) :
    scene.Recorded [record] (scene.record record) := by
  cases record with
  | build p => exact h.recorded_build p
  | book arguments booking => exact h.recorded_booking arguments booking
  | wait seconds => exact h.recorded_wait seconds

/-- A scene that is being recorded changes by records as `Recorded` says. -/
theorem Recording.recorded (h : scene.Recording) (records : List Record) :
    scene.Recorded records (records.foldl record scene) := by
  induction records generalizing scene with
  | nil => exact h.recorded_nil
  | cons record rest ih =>
    have hfirst := h.recorded_record record
    exact hfirst.append (ih hfirst.recording)

/-! ## Scenes that are being recorded -/

theorem recording_empty (bounds : Bounds) : (empty bounds).Recording :=
  ⟨rfl, ⟨nofun, .nil⟩, elapsed_zero⟩

theorem Recording.of_sameTime (h : scene.Recording) (hsame : scene.SameTime next) :
    next.Recording := by
  refine ⟨hsame.phase.trans h.phase, ?_, ?_⟩
  · rw [hsame.timeline]
    exact h.ascending
  · rw [hsame.offset]
    exact h.offset

/-- A scene that is still being recorded was so before, and nothing has brought it out of order. -/
def StillRecording (scene next : Scene) : Prop :=
  next.phase = .recording → scene.phase = .recording ∧ (scene.Recording → next.Recording)

private theorem stillRecording_of_sameTime (hsame : scene.SameTime next) :
    scene.StillRecording next := fun hphase =>
  ⟨hsame.phase.symm.trans hphase, fun h => h.of_sameTime hsame⟩

private theorem stillRecording_act {scheduled : List ScheduledAction}
    (h : scene.Act scheduled next) : scene.StillRecording next := by
  cases h with
  | keep => exact stillRecording_of_sameTime (.refl scene)
  | insert p => exact stillRecording_of_sameTime ⟨rfl, rfl, rfl, rfl, rfl⟩
  | put howned p => exact stillRecording_of_sameTime ⟨rfl, rfl, rfl, rfl, rfl⟩
  | enact henact => exact stillRecording_of_sameTime (changed_enact henact).sameTime
  | schedule delay effect =>
    exact fun hphase => ⟨hphase, fun h => h.of_queue (h.queue_schedule _ _)⟩
  | scheduleAll delay effects =>
    exact fun hphase => ⟨hphase, fun h => h.of_queue (h.queue_scheduleAll _ _)⟩
  | delay hdelay =>
    rw [scheduleDelay] at hdelay
    split at hdelay
    · rename_i hphase
      obtain rfl := Except.ok.inj hdelay
      exact fun _ => ⟨hphase, fun h => (h.recorded_wait _).recording⟩
    · cases hdelay
  | finishRecording =>
    rw [finishRecording]
    split
    · exact stillRecording_of_sameTime (.refl scene)
    · intro hphase
      cases hphase

theorem relates_stillRecording (gate : Scene → Float → Prop) :
    Course.Relates gate StillRecording where
  refl _ := stillRecording_of_sameTime (.refl _)
  trans _ _ _ hfirst hsecond hphase := by
    obtain ⟨hmiddle, hlast⟩ := hsecond hphase
    obtain ⟨hstart, hkept⟩ := hfirst hmiddle
    exact ⟨hstart, fun h => hlast (hkept h)⟩
  act _ _ _ := stillRecording_act
  enterFrame scene dt _ hphase := by
    refine ⟨hphase, fun h => ⟨h.phase, ⟨fun a ha => ?_, ?_⟩, h.offset⟩⟩
    · exact h.ascending.timely a (List.mem_of_mem_drop ha)
    · exact h.ascending.sorted.sublist (List.drop_sublist _ _)
  failed _ hphase := ⟨hphase, fun h => ⟨h.phase, h.ascending, h.offset⟩⟩
  animate _ _ _ _ h := stillRecording_of_sameTime (sameTime_animate h)

/-- Whatever has been done to a new scene: as long as it is being recorded, its actions are in order
and its offset is not before the start. -/
theorem recording_of_course {σ α : Type} {gate : Scene → Float → Prop} {m : Action σ α}
    {bounds : Bounds} {host : σ} {ms : List (Moment σ)} {a : α} {last : Stage σ}
    (h : Course gate m ⟨.initial bounds host, 0⟩ ms a last)
    (hphase : last.scene.phase = .recording) : last.scene.Recording :=
  (((relates_stillRecording gate).closed.course h).start hphase).2 (recording_empty bounds)

end Scene

/-! ## What scripts do -/

/-- What a computation does to a scene that is being recorded is told by records. -/
def Contract.recording : Contract where
  Inv world := world.scene.Recording
  Leads world next := ∃ records : List Record, next.scene = records.foldl Scene.record world.scene
  Known _ _ := True
  Faulty := False

namespace Session

open Play Playback

private theorem keeps_of_record {world next : World Session} (h : world.scene.Recording)
    (record : Record) (hnext : next.scene = world.scene.record record) :
    Contract.recording.Keeps world next where
  inv := by
    change next.scene.Recording
    rw [hnext]
    exact (h.recorded_record record).recording
  leads := ⟨[record], hnext⟩

private theorem keeps_of_scene {world next : World Session} (h : world.scene.Recording)
    (hnext : next.scene = world.scene) : Contract.recording.Keeps world next where
  inv := by
    change next.scene.Recording
    rw [hnext]
    exact h
  leads := ⟨[], hnext⟩

private theorem keeps_of_built {world next : World Session} (h : world.scene.Recording)
    {host : Option PrimitiveId} {built : Scene} (hbuilt : world.scene.Built host built)
    (hnext : next.scene = built) : Contract.recording.Keeps world next := by
  cases hbuilt with
  | plain => exact keeps_of_scene h hnext
  | primitive p => exact keeps_of_record h (.build p) hnext

/-- While a scene is recorded, time that passes moves the offset on. -/
theorem elapse_recording (invoke : Invoker Session) {world : World Session}
    (h : world.scene.phase = .recording) (seconds : Float) :
    (elapse invoke seconds).run world =
      .ok (.ok (), { world with scene := world.scene.record (.wait seconds) }) := by
  have hdelay : world.scene.scheduleDelay seconds = .ok (world.scene.record (.wait seconds)) := by
    unfold Scene.scheduleDelay
    split
    · rfl
    · rename_i hphase
      cases h.symm.trans hphase
  rw [elapse, run_bind_of_eq_ok (m := scene) rfl]
  split
  · rw [run_bind_of_eq_ok (m := scene) rfl, hdelay]
    rfl
  · rename_i hphase
    cases h.symm.trans hphase

/-- What a script does to a scene that is being recorded is told by records. -/
theorem recording_lawful : Contract.recording.Lawful where
  refl world := ⟨[], rfl⟩
  trans := by
    rintro world middle next ⟨records, hmiddle⟩ ⟨rest, hnext⟩
    exact ⟨records ++ rest, by rw [hnext, hmiddle, List.foldl_append]⟩
  known _ _ _ := trivial
  scopes _ := Scopes.within_of_forall (fun _ => trivial) _
  properties _ _ := PropertyMap.within_of_forall (fun _ => trivial) _
  idle h hidle := keeps_of_scene h hidle.scene
  booked {_ arguments} h _ booking := keeps_of_record h (.book arguments booking) rfl
  constructed h _ hconstructed := ⟨keeps_of_built h hconstructed.built rfl, trivial⟩
  rebound h _ _ := keeps_of_scene h rfl
  setProperty h _ _ _ := keeps_of_scene h rfl
  elapse {invoke} _ world seconds := by
    refine .of_inv fun h => .of_ok (elapse_recording invoke h.phase seconds) fun _ => ?_
    exact ⟨keeps_of_record h (.wait seconds) rfl, trivial⟩

/-! ## Runs -/

/-- A computation in a world ends, and what it has done to the scene is told by records of some
kind. -/
def Records {α : Type} (world : World Session) (m : Play α) (kind : List Record → Prop) : Prop :=
  ∃ a next records, m.run world = .ok (a, next) ∧ world.scene.Recorded records next.scene ∧
    kind records

/-- What evaluation does in a world whose scene is being recorded. -/
structure EvaluationRecorded (world : World Session) : Prop where
  run : ∀ statements, Records world (run Standard.commands statements) fun _ => True
  exec : ∀ levels stmt,
    Records world (exec Standard.commands (callees Standard.commands levels) stmt) fun _ => True
  construct : ∀ typeName arguments properties,
    Records world (construct Standard.commands typeName arguments properties) fun records =>
      records = [] ∨ ∃ p, records = [.build p]
  /-- A method adds actions only for the call that it is called for. -/
  method : ∀ typeName name handler, Standard.commands.resolve? typeName name = some handler →
    ∀ object arguments, Records world (handler object arguments) fun records =>
      records = [] ∨ ∃ booking, records = [.book arguments booking]
  /-- So does a global command. -/
  global : ∀ name handler, Standard.commands.global? name = some handler →
    handler ≠ Standard.wait → ∀ waiting arguments,
      Records world (handler waiting arguments) fun records =>
        records = [] ∨ ∃ booking, records = [.book arguments booking]
  wait : ∀ levels seconds,
    Records world (wait (callees Standard.commands levels).invoke seconds) fun records =>
      records = [.wait seconds]

section

variable {world : World Session} (h : world.scene.Recording)

include h

private theorem records_of_meets {α : Type} {m : Play α} {Q : World Session → α → Prop}
    (hm : Contract.recording.Meets world m Q) : Records world m fun _ => True := by
  cases hrun : m.run world with
  | error fault => exact (hm.error fault h hrun).elim
  | ok result =>
    obtain ⟨hkeeps, -⟩ := hm.ok result.1 result.2 h hrun
    obtain ⟨records, hnext⟩ := hkeeps.leads
    refine ⟨result.1, result.2, records, hrun, ?_, trivial⟩
    rw [hnext]
    exact h.recorded records

private theorem records_of_handles {arguments : Arguments} {m : Play Value}
    (hm : Handles (fun _ => True) arguments m) :
    Records world m fun records =>
      records = [] ∨ ∃ booking, records = [.book arguments booking] := by
  obtain ⟨value, next, hrun, hhandled, -⟩ := hm world
  cases hhandled with
  | idle hidle =>
    refine ⟨value, next, [], hrun, ?_, .inl rfl⟩
    rw [hidle.scene]
    exact h.recorded_nil
  | @booked middle hidle booking =>
    refine ⟨value, _, [.book arguments booking], hrun, ?_, .inr ⟨booking, rfl⟩⟩
    rw [hidle.scene]
    exact h.recorded_record (.book arguments booking)

private theorem recorded_of_built {host : Option PrimitiveId} {built : Scene}
    (hbuilt : world.scene.Built host built) :
    ∃ records, world.scene.Recorded records built ∧ (records = [] ∨ ∃ p, records = [.build p]) := by
  cases hbuilt with
  | plain => exact ⟨[], h.recorded_nil, .inl rfl⟩
  | primitive p => exact ⟨[.build p], h.recorded_build p, .inr ⟨p, rfl⟩⟩

/-- A script that runs while a scene is recorded, and each statement and call in it, always ends. It
leaves the phase, the clock, the failures, what is displayed, and every primitive and pending action
as they are; what it adds to the timeline is stamped with the offset of the call and its delay, and
the offset moves on by what it waits. -/
theorem evaluation_recorded : EvaluationRecorded world where
  run statements := records_of_meets h (recording_lawful.run statements)
  exec levels stmt :=
    records_of_meets h (recording_lawful.exec (recording_lawful.callees levels) stmt)
  construct typeName arguments properties := by
    obtain ⟨object, next, hrun, hconstructed⟩ := construct_run typeName arguments properties world
    obtain ⟨records, hrecorded, hkind⟩ := recorded_of_built h hconstructed.built
    exact ⟨.object object, next, records, hrun, hrecorded, hkind⟩
  method typeName name handler hfound object arguments := by
    obtain ⟨operation, rfl⟩ := Standard.exists_of_resolve? hfound
    exact records_of_handles h (Standard.handles_method trivial (Arguments.within_of_forall
      (fun _ => trivial) arguments) operation)
  global name handler hfound hwait waiting arguments := by
    obtain ⟨listed, hlisted, rfl⟩ := Standard.exists_of_global? hfound
    exact records_of_handles h (Standard.handles_global hlisted hwait (Arguments.within_of_forall
      (fun _ => trivial) arguments) waiting)
  wait levels seconds := by
    let waited : World Session := { world with scene := world.scene.record (.wait seconds) }
    refine ⟨(), waited, [.wait seconds], ?_, h.recorded_wait seconds, rfl⟩
    rw [Session.wait, run_bind_of_eq_ok (elapse_recording _ h.phase seconds)]
    rfl

end

/-- A world in which a circle has been constructed and a function is to be called three seconds from
the start on. -/
def begunWorld : World Session :=
  { World.initial ⟨8, 8⟩ (.ofSettings .default) with
    scene := [Record.build (.circle 1 8 true), .wait 2,
      .book (.ofList [.number 1]) (.call ⟨"turn", [], [], .start⟩)].foldl Scene.record
        (.empty ⟨8, 8⟩) }

theorem evaluation_recorded_begunWorld :
    begunWorld.scene.Recording ∧ begunWorld.scene.offset = 2 ∧
      begunWorld.scene.timeline.actions.map (·.time) = [3] ∧ EvaluationRecorded begunWorld := by
  have hrecording : begunWorld.scene.Recording :=
    ((Scene.recording_empty ⟨8, 8⟩).recorded _).recording
  exact ⟨hrecording, by decide +kernel, by decide +kernel, evaluation_recorded hrecording⟩

end Session

end Animatic
