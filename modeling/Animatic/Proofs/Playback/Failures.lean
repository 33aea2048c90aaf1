import Animatic.Proofs.Playback.Clock
import Animatic.Proofs.Playback.Tracing
import Animatic.Proofs.Session.Rules
import Animatic.Proofs.Timeline.Batches

/-!
# Failing effects

An effect that fails changes nothing, and nothing in a scene or in a session depends on how many
effects have failed. So a frame in which a due action fails ends as it would without that action,
but for the number of failures.

* `Invoker.Safe`, `apply_of_error`: what fails changes nothing.
* `Indifferent`: computations for which it does not matter how many effects have failed.
* `Scene.Divided`: what is due stands in front of what is not.
* `Isolates`, `isolates_update`: the frame without a failing action.
-/

namespace Animatic

open Number Playback Timeline

variable {σ : Type} {α β : Type}

/-! ## What fails changes nothing -/

/-- A host in which a call that fails changes nothing. -/
def Invoker.Safe (invoke : Invoker σ) : Prop :=
  ∀ call error world next, (invoke call).run world = .ok (.error error, next) → next = world

theorem safe_noScript : Invoker.Safe (noScript : Invoker σ) := by
  intro call error world next h
  exact (Prod.mk.inj (Except.ok.inj h)).2.symm

/-- A session refuses a call before it begins, or runs it to its end. -/
theorem Session.safe_callees (commands : Commands) (levels : Nat) :
    (callees commands levels).invoke.Safe := by
  intro call error world next h
  cases levels with
  | zero => exact (Prod.mk.inj (Except.ok.inj h)).2.symm
  | succ levels =>
    obtain ⟨session, middle, hsession, h⟩ := Action.bind_eq_ok h
    obtain ⟨rfl, rfl⟩ := Prod.mk.inj (Except.ok.inj hsession)
    split at h
    · exact (Prod.mk.inj (Except.ok.inj h)).2.symm
    · obtain ⟨value, last, -, h⟩ := Action.bind_eq_ok h
      cases (Prod.mk.inj (Except.ok.inj h)).1

/-- An effect that fails changes nothing. -/
theorem apply_of_error {invoke : Invoker σ} (hinvoke : invoke.Safe) {effect : Effect}
    {error : SceneError} {world next : World σ}
    (h : (apply invoke effect).run world = .ok (.error error, next)) : next = world := by
  cases effect with
  | invoke call => exact hinvoke call error world next h
  | change change =>
    obtain ⟨scene, middle, hscene, h⟩ := Action.bind_eq_ok h
    obtain ⟨rfl, rfl⟩ := Prod.mk.inj (Except.ok.inj hscene)
    split at h
    · exact (Prod.mk.inj (Except.ok.inj h)).2.symm
    · cases (Prod.mk.inj (Except.ok.inj h)).1

/-! ## Scenes with other numbers of failures -/

namespace Scene

/-- A scene with another number of failed effects. -/
def withFailures (scene : Scene) (failures : Nat) : Scene := { scene with failures }

/-- A change that goes on in the same way however many effects have failed. -/
def Carries (f : Scene → Scene) : Prop :=
  ∀ scene failures, f (scene.withFailures failures) = (f scene).withFailures failures

variable {f : Scene → Scene}

/-- Such a change counts no failure. -/
theorem Carries.failures_eq (h : Carries f) (scene : Scene) :
    (f scene).failures = scene.failures := by
  have hsame := congrArg Scene.failures (h scene scene.failures)
  exact hsame

variable (scene : Scene) (failures : Nat)

theorem enact_withFailures (change : Change) :
    (scene.withFailures failures).enact change =
      (scene.enact change).map fun (next, entries) => (next.withFailures failures, entries) := by
  have hrequire (id : PrimitiveId) :
      (scene.withFailures failures).require id = scene.require id := rfl
  cases change with
  | «show» id =>
    have hdisplayed : (scene.withFailures failures).isDisplayed id = scene.isDisplayed id := rfl
    simp only [enact, hrequire, hdisplayed]
    cases scene.require id with
    | error e => rfl
    | ok p => cases scene.isDisplayed id <;> rfl
  | remove id =>
    simp only [enact, remove, hrequire]
    cases scene.require id <;> rfl
  | shapeTween source target duration easing replace =>
    simp only [enact, startShapeTween, hrequire]
    cases scene.require target with
    | error e => rfl
    | ok goal => cases scene.require source <;> rfl
  | tween id _ _ _ | set id _ | setVelocity id _ _ =>
    simp only [enact, hrequire]
    cases scene.require id <;> rfl

private theorem swap_withFailures (source target : PrimitiveId) :
    (scene.withFailures failures).swap source target =
      ((scene.swap source target).1.withFailures failures, (scene.swap source target).2) := by
  have hget (id : PrimitiveId) : (scene.withFailures failures).get? id = scene.get? id := rfl
  have hrest (id : PrimitiveId) : ((scene.withFailures failures).disown source).get? id =
      (scene.disown source).get? id := rfl
  simp only [swap, hget, hrest]
  cases scene.get? source with
  | none => rfl
  | some old => cases (scene.disown source).get? target <;> rfl

private theorem swapAll_withFailures (swaps : List (PrimitiveId × PrimitiveId)) :
    swapAll swaps (scene.withFailures failures) =
      ((swapAll swaps scene).1.withFailures failures, (swapAll swaps scene).2) := by
  induction swaps generalizing scene with
  | nil => rfl
  | cons swap rest ih => simp only [swapAll, swap_withFailures, ih]

private theorem advanceAll_withFailures (dt : Float) (ids : List PrimitiveId) :
    advanceAll dt ids (scene.withFailures failures) =
      (advanceAll dt ids scene).map fun (next, swaps) => (next.withFailures failures, swaps) := by
  induction ids generalizing scene with
  | nil => rfl
  | cons id rest ih =>
    have hget : (scene.withFailures failures).get? id = scene.get? id := rfl
    have hbounds : (scene.withFailures failures).bounds = scene.bounds := rfl
    have hput (p : Primitive) : (scene.withFailures failures).put id p =
        (scene.put id p).withFailures failures := rfl
    simp only [advanceAll, hget, hbounds, hput, ih]
    cases scene.get? id with
    | none => rfl
    | some p =>
      dsimp only
      cases p.advance dt scene.bounds with
      | error e => rfl
      | ok moved =>
        simp only [bind, Except.bind]
        cases advanceAll dt rest (scene.put id moved.1) <;> rfl

theorem animate_withFailures (dt : Float) :
    (scene.withFailures failures).animate dt =
      (scene.animate dt).map fun (next, entries) => (next.withFailures failures, entries) := by
  have hdisplay : (scene.withFailures failures).display = scene.display := rfl
  simp only [animate, hdisplay, advanceAll_withFailures]
  cases advanceAll dt scene.display scene with
  | error e => rfl
  | ok moved =>
    simp only [bind, Except.bind, Except.map, pure, Except.pure, swapAll_withFailures]

end Scene

/-! ## Computations that do not depend on failures -/

/-- Two worlds that are the same but for what has been logged and for the number of failed effects,
of which there are `more` in the second. -/
structure World.Ahead (more : Nat) (world other : World σ) : Prop where
  scene : other.scene = world.scene.withFailures (world.scene.failures + more)
  host : other.host = world.host

/-- Two computations end alike: by the same fault, or with the same result in such worlds. -/
inductive EndAlike (more : Nat) :
    Except Fault (α × World σ) → Except Fault (α × World σ) → Prop where
  | fault (fault : Fault) : EndAlike more (.error fault) (.error fault)
  | ok (a : α) {world other : World σ} (h : world.Ahead more other) :
      EndAlike more (.ok (a, world)) (.ok (a, other))

/-- It does not matter how many effects have failed before a computation. -/
def Indifferent (m : Action σ α) : Prop :=
  ∀ more world other, world.Ahead more other → EndAlike more (m.run world) (m.run other)

theorem indifferent_pure (a : α) : Indifferent (pure a : Action σ α) :=
  fun _ _ _ h => .ok a h

theorem EndAlike.bind {m m' : Action σ α} {f : α → Action σ β} {more : Nat}
    {world other : World σ} (h : EndAlike more (m.run world) (m'.run other))
    (hf : ∀ a, Indifferent (f a)) :
    EndAlike more ((m >>= f).run world) ((m' >>= f).run other) := by
  rw [StateT.run_bind, StateT.run_bind]
  generalize m.run world = first, m'.run other = second at h ⊢
  cases h with
  | fault fault => exact .fault fault
  | ok a h => exact hf a more _ _ h

theorem Indifferent.bind {m : Action σ α} {f : α → Action σ β} (hm : Indifferent m)
    (hf : ∀ a, Indifferent (f a)) : Indifferent (m >>= f) :=
  fun more world other h => (hm more world other h).bind hf

theorem indifferent_look {view : Scene → α} (h : Scene.FailureBlind view) :
    Indifferent (scene >>= fun scene => pure (view scene) : Action σ α) := by
  intro more world other hahead
  have hview : view other.scene = view world.scene := by
    rw [hahead.scene]
    exact h world.scene _
  have hrun (w : World σ) :
      (scene >>= fun scene => pure (view scene) : Action σ α).run w = .ok (view w.scene, w) := rfl
  rw [hrun, hrun, hview]
  exact .ok _ hahead

theorem indifferent_host : Indifferent (host : Action σ σ) := by
  intro more world other h
  have hrun (w : World σ) : (host : Action σ σ).run w = .ok (w.host, w) := rfl
  rw [hrun, hrun, h.host]
  exact .ok _ h

theorem indifferent_changeHost (f : σ → σ) : Indifferent (changeHost f : Action σ Unit) :=
  fun _ _ _ h => .ok () ⟨h.scene, congrArg f h.host⟩

theorem indifferent_log (entries : List LogEntry) : Indifferent (log entries : Action σ Unit) :=
  fun _ _ _ h => .ok () ⟨h.scene, h.host⟩

theorem indifferent_logOne (level : LogLevel) (message : String) :
    Indifferent (logOne level message : Action σ Unit) :=
  fun _ _ _ h => .ok () ⟨h.scene, h.host⟩

theorem indifferent_changeScene {f : Scene → Scene} (hf : Scene.Carries f) :
    Indifferent (changeScene f : Action σ Unit) := by
  refine fun more world other h => .ok () ⟨?_, h.host⟩
  dsimp only
  rw [h.scene, hf, hf.failures_eq]

/-- A failure is counted on top of those before it. -/
private theorem indifferent_countFailure : Indifferent
    (changeScene fun scene => { scene with failures := scene.failures + 1 } : Action σ Unit) := by
  refine fun more world other h => .ok () ⟨?_, h.host⟩
  dsimp only
  rw [h.scene]
  simp only [Scene.withFailures, Nat.add_right_comm]

/-- A step that computes the next scene from the present one, and logs. -/
private theorem EndAlike.step {more : Nat} {world other : World σ} (h : world.Ahead more other)
    {next : Scene} (hnext : next.failures = world.scene.failures) (a : α)
    (entries entries' : Array LogEntry) :
    EndAlike more (.ok (a, { world with scene := next, log := entries }))
      (.ok (a, { other with
        scene := next.withFailures (world.scene.failures + more), log := entries' })) :=
  .ok a ⟨by rw [hnext], h.host⟩

theorem indifferent_enact (change : Change) :
    Indifferent (enact change : Action σ (Except SceneError Unit)) := by
  intro more world other h
  have hother : other.scene.enact change = (world.scene.enact change).map fun (next, entries) =>
      (next.withFailures (world.scene.failures + more), entries) := by
    rw [h.scene, Scene.enact_withFailures]
  cases henact : world.scene.enact change with
  | error e =>
    have hrun (w : World σ) (hw : w.scene.enact change = .error e) :
        (enact change : Action σ (Except SceneError Unit)).run w = .ok (.error e, w) := by
      refine (Action.bind_of_ok rfl).trans ?_
      rw [hw]
      rfl
    rw [henact] at hother
    rw [hrun world henact, hrun other hother]
    exact .ok _ h
  | ok result =>
    have hrun (w : World σ) {next : Scene} {entries : List LogEntry}
        (hw : w.scene.enact change = .ok (next, entries)) :
        (enact change : Action σ (Except SceneError Unit)).run w =
          .ok (.ok (), { w with scene := next, log := w.log ++ entries.toArray }) := by
      refine (Action.bind_of_ok rfl).trans ?_
      rw [hw]
      rfl
    rw [henact] at hother
    rw [hrun world henact, hrun other hother]
    have hsame := (Scene.changed_enact henact).sameTime
    exact EndAlike.step h hsame.failures _ _ _

/-! ## Frames -/

theorem indifferent_animate (dt : Float) : Indifferent (animate dt : Action σ Unit) := by
  intro more world other h
  have hrun (w : World σ) : (animate dt : Action σ Unit).run w =
      (w.scene.animate dt).map fun (next, entries) =>
        ((), { w with scene := next, log := w.log ++ entries.toArray }) := by
    refine (Action.bind_of_ok rfl).trans ?_
    cases hmoved : w.scene.animate dt <;> rfl
  rw [hrun, hrun, h.scene, Scene.animate_withFailures]
  cases hmoved : world.scene.animate dt with
  | error e => exact .fault e
  | ok result => exact EndAlike.step h (Scene.sameTime_animate hmoved).failures _ _ _

section

variable {invoke : Invoker σ} (hinvoke : ∀ call, Indifferent (invoke call))

include hinvoke

theorem indifferent_fireAll (due : List ScheduledAction) : Indifferent (fireAll invoke due) := by
  induction due with
  | nil => exact indifferent_pure ()
  | cons action rest ih =>
    have happly : Indifferent (apply invoke action.effect) := by
      cases action.effect with
      | change change => exact indifferent_enact change
      | invoke call => exact hinvoke call
    refine (happly.bind fun outcome => ?_).bind fun _ => ih
    cases outcome with
    | ok value => exact indifferent_pure ()
    | error e => exact indifferent_countFailure.bind fun _ => indifferent_logOne _ _

theorem indifferent_update (dt : Float) : Indifferent (update invoke dt) := by
  intro more world other h
  have hstart : (world.withScene (world.scene.enterFrame dt)).Ahead more
      (other.withScene (other.scene.enterFrame dt)) := by
    refine ⟨?_, h.host⟩
    simp only [World.withScene, h.scene]
    rfl
  have hdue : other.scene.dueWithin dt = world.scene.dueWithin dt := by
    rw [h.scene]
    rfl
  have hrun (w : World σ) : (update invoke dt).run w =
      (fireAll invoke (w.scene.dueWithin dt) >>= fun _ => animate dt).run
        (w.withScene (w.scene.enterFrame dt)) := rfl
  rw [hrun, hrun, hdue]
  exact (indifferent_fireAll hinvoke _).bind (fun _ => indifferent_animate dt) _ _ _ hstart

theorem indifferent_advanceClock (seconds : Float) :
    Indifferent (advanceClock invoke seconds) := by
  intro more world other h
  have hphase : other.scene.phase = world.scene.phase := by rw [h.scene]; rfl
  cases hworld : world.scene.phase with
  | recording =>
    have hrun (w : World σ) (hw : w.scene.phase = .recording) :
        (advanceClock invoke seconds).run w =
          .ok (.error (.wrongPhase "advance_clock" .recording), w) := by
      rw [advanceClock, Action.bind_of_ok (m := scene) rfl, hw]
      rfl
    rw [hrun world hworld, hrun other (hphase.trans hworld)]
    exact .ok _ h
  | playing =>
    have hrun (w : World σ) (hw : w.scene.phase = .playing) :
        (advanceClock invoke seconds).run w =
          (update invoke (greatest seconds 0) >>= fun _ => pure (.ok ())).run w := by
      rw [advanceClock, Action.bind_of_ok (m := scene) rfl, hw]
    rw [hrun world hworld, hrun other (hphase.trans hworld)]
    exact (indifferent_update hinvoke _).bind (fun _ => indifferent_pure _) _ _ _ h

end

/-! ## Sessions -/

private theorem indifferent_elapse {invoke : Invoker Session}
    (hinvoke : ∀ call, Indifferent (invoke call)) (seconds : Float) :
    Indifferent (Session.elapse invoke seconds) := by
  intro more world other h
  have hphase : other.scene.phase = world.scene.phase := by rw [h.scene]; rfl
  cases hworld : world.scene.phase with
  | recording =>
    have hrun (w : World Session) (hw : w.scene.phase = .recording) :
        (Session.elapse invoke seconds).run w = .ok (.ok (), { w with
          scene := { w.scene with offset := w.scene.offset + greatest seconds 0 } }) := by
      have hdelay : w.scene.scheduleDelay seconds =
          .ok { w.scene with offset := w.scene.offset + greatest seconds 0 } := by
        rw [Scene.scheduleDelay]
        split
        · rfl
        · rename_i hplaying
          rw [hw] at hplaying
          cases hplaying
      rw [Session.elapse, Action.bind_of_ok (m := scene) rfl, hw]
      refine (Action.bind_of_ok rfl).trans ?_
      rw [hdelay]
      rfl
    rw [hrun world hworld, hrun other (hphase.trans hworld), h.scene]
    have hsame : ({ world.scene with offset := world.scene.offset + greatest seconds 0 } :
        Scene).failures = world.scene.failures := rfl
    exact EndAlike.step h hsame _ _ _
  | playing =>
    have hrun (w : World Session) (hw : w.scene.phase = .playing) :
        (Session.elapse invoke seconds).run w = (advanceClock invoke seconds).run w := by
      rw [Session.elapse, Action.bind_of_ok (m := scene) rfl, hw]
    rw [hrun world hworld, hrun other (hphase.trans hworld)]
    exact indifferent_advanceClock hinvoke seconds _ _ _ h

private theorem indifferent_buildHost (typeName : String) (positional : List Value)
    (properties : PropertyMap) :
    Indifferent (Session.buildHost typeName positional properties) := by
  refine indifferent_host.bind fun session => (indifferent_log _).bind fun _ => ?_
  split
  · rename_i p _
    -- the new identity is the number of the primitives
    refine fun more world other h => ?_
    have hslots : other.scene.slots = world.scene.slots := by rw [h.scene]; rfl
    have hrun (w : World Session) :
        (scene >>= fun scene => (do
          changeScene fun _ => (scene.insert p).2
          pure (some (scene.insert p).1)) : Play (Option PrimitiveId)).run w =
        .ok (some ⟨w.scene.slots.size⟩, { w with scene := (w.scene.insert p).2 }) := rfl
    refine cast (congrArg₂ (EndAlike more) (hrun world).symm (hrun other).symm) ?_
    have hsame : (world.scene.insert p).2.failures = world.scene.failures := rfl
    rw [hslots, h.scene]
    exact EndAlike.step h hsame _ _ _
  · exact (indifferent_logOne _ _).bind fun _ => indifferent_pure _
  · exact (indifferent_logOne _ _).bind fun _ => indifferent_pure _

private theorem indifferent_commonProperties (object : ObjectRef) :
    Indifferent (Standard.commonProperties object) := by
  unfold Standard.commonProperties
  split
  · exact indifferent_pure ()
  · rename_i id _
    refine indifferent_host.bind fun session => indifferent_changeScene fun scene failures => ?_
    have hget : (scene.withFailures failures).get? id = scene.get? id := rfl
    rw [hget]
    cases scene.get? id <;> rfl

/-- No step of evaluation depends on how many effects have failed. -/
theorem indifferent_rules : Play.Rules fun m => Indifferent m where
  pure := indifferent_pure
  bind := .bind
  look := indifferent_look
  session := indifferent_host
  log := indifferent_log
  logOne := indifferent_logOne
  schedule _ _ := indifferent_changeScene fun _ _ => rfl
  scheduleAll _ _ := indifferent_changeScene fun _ _ => rfl
  changeSession f _ := indifferent_changeHost f
  buildHost := indifferent_buildHost
  commonProperties := indifferent_commonProperties
  elapse := indifferent_elapse

/-- The hosts that come with a scene: the one without a script, and sessions at any depth. -/
inductive Provided : {σ : Type} → Invoker σ → Prop where
  | noScript (σ : Type) : Provided (noScript : Invoker σ)
  | session (levels : Nat) : Provided (Session.callees Standard.commands levels).invoke

theorem Provided.safe {invoke : Invoker σ} (h : Provided invoke) : invoke.Safe := by
  cases h with
  | noScript => exact safe_noScript
  | session levels => exact Session.safe_callees _ levels

theorem Provided.indifferent {invoke : Invoker σ} (h : Provided invoke) (call : Invocation) :
    Indifferent (invoke call) := by
  cases h with
  | noScript => exact indifferent_pure _
  | session levels =>
    exact (indifferent_rules.watchedCallees indifferent_rules.standard
      (fun _ => indifferent_pure ()) levels).invoke call

/-! ## What is due -/

namespace Scene

variable {scene next : Scene}

/-- At the clock of a frame, what is due stands in front of what is not. -/
def Divided (scene : Scene) (dt : Float) : Prop :=
  ∃ front back, scene.timeline.actions = front ++ back ∧
    (∀ a ∈ front, a.time ≤ scene.clock + dt) ∧ ∀ a ∈ back, ¬ a.time ≤ scene.clock + dt

/-- Just what is due leaves a divided queue. -/
private theorem drainDue_append {front back : List ScheduledAction} {now : Float}
    (hfront : ∀ a ∈ front, a.time ≤ now) (hback : ∀ a ∈ back, ¬ a.time ≤ now) :
    (Timeline.mk (front ++ back)).drainDue now = (front, ⟨back⟩) := by
  have hcount : (Timeline.mk (front ++ back)).dueCount now = front.length :=
    boundary_append (fun a ha => decide_eq_true (hfront a ha))
      fun a ha hdue => hback a ha (of_decide_eq_true hdue)
  simp only [drainDue, hcount, List.take_left, List.drop_left]

/-- A scene without one of its pending actions. -/
def without (scene : Scene) (place : Nat) : Scene :=
  { scene with timeline := ⟨scene.timeline.actions.eraseIdx place⟩ }

/-- Without an action that is due, the others are due as before, and the same is left. -/
theorem Divided.without {dt : Float} {before after : List ScheduledAction}
    {action : ScheduledAction} (h : scene.Divided dt)
    (hdue : scene.dueWithin dt = before ++ action :: after) :
    (scene.without before.length).dueWithin dt = before ++ after ∧
      (scene.without before.length).enterFrame dt = scene.enterFrame dt := by
  obtain ⟨front, back, hqueue, hfront, hback⟩ := h
  have hdrained : scene.timeline.drainDue (scene.clock + dt) = (front, ⟨back⟩) := by
    rw [← drainDue_append hfront hback, ← hqueue]
  rw [dueWithin, hdrained] at hdue
  obtain rfl : front = before ++ action :: after := hdue
  have hleft : (scene.timeline.actions.eraseIdx before.length) = before ++ after ++ back := by
    rw [hqueue, List.append_assoc, List.eraseIdx_append_of_length_le (Nat.le_refl _)]
    simp
  have hless : (Timeline.mk (before ++ after ++ back)).drainDue (scene.clock + dt) =
      (before ++ after, ⟨back⟩) := by
    refine drainDue_append (fun a ha => hfront a ?_) hback
    rcases List.mem_append.mp ha with ha | ha
    · exact List.mem_append_left _ ha
    · exact List.mem_append_right _ (List.mem_cons_of_mem _ ha)
  have hdrained' : (scene.without before.length).timeline.drainDue
      ((scene.without before.length).clock + dt) = (before ++ after, ⟨back⟩) := by
    rw [Scene.without, hleft]
    exact hless
  rw [dueWithin, enterFrame, enterFrame, hdrained', hdrained]
  exact ⟨rfl, rfl⟩

/-- The clock tells no time any more: it is not a number, or it is infinite downwards. -/
def Lost (scene : Scene) : Prop :=
  scene.clock.isNaN = true ∨ exact scene.clock = .infinity .negative

/-- What holds of a scene in every course: as long as its clock is not lost, what is pending is in
order of time. -/
structure Timed (scene : Scene) : Prop where
  offset : 0 ≤ scene.offset
  queue : scene.Lost ∨ Ordered scene.timeline.actions

theorem timed_empty (bounds : Bounds) : (empty bounds).Timed :=
  ⟨elapsed_zero.nonneg, .inr ordered_empty⟩

theorem Timed.of_sameTime (h : scene.Timed) (hsame : scene.SameTime next) : next.Timed := by
  refine ⟨?_, ?_⟩
  · rw [hsame.offset]
    exact h.offset
  · rw [Lost, hsame.clock, hsame.timeline]
    exact h.queue

/-- In every such scene the queue is divided by the clock of a frame that is not infinite
downwards. -/
theorem Timed.divided (h : scene.Timed) {dt : Float}
    (hclock : exact (scene.clock + dt) ≠ .infinity .negative) : scene.Divided dt := by
  rcases h.queue with hlost | hordered
  · have hnan : (scene.clock + dt).isNaN = true := by
      rcases hlost with hnan | hdown
      · exact isNaN_add_of_isNaN hnan dt
      · exact (add_of_infinite_down hdown dt).resolve_right hclock
    refine ⟨[], _, rfl, fun _ ha => (List.not_mem_nil ha).elim, fun a _ hdue => ?_⟩
    rw [(numbers_of_le hdue).2] at hnan
    cases hnan
  · obtain ⟨front, back, hqueue, -, hfront, hback⟩ := hordered.dueCount_split (scene.clock + dt)
    exact ⟨front, back, hqueue, hfront, hback⟩

/-- As long as the clock is not lost, stamps are numbers. -/
private theorem Timed.isNaN_stamp (h : scene.Timed) (hclock : ¬ scene.Lost) (delay : Float) :
    (scene.stamp delay).isNaN = false := by
  have hdelay := nonneg_greatest delay
  rw [stamp, now]
  cases scene.phase with
  | recording => exact (numbers_of_le (le_add_of_nonneg h.offset hdelay)).2
  | playing =>
    have hnumber : scene.clock.isNaN = false := Bool.eq_false_iff.mpr fun hnan => hclock (.inl hnan)
    exact isNaN_add_of_nonneg hnumber (fun hdown => hclock (.inr hdown)) hdelay

private theorem Timed.of_queue (h : scene.Timed) {timeline : Timeline}
    (hqueue : ¬ scene.Lost → Ordered scene.timeline.actions → Ordered timeline.actions) :
    Timed { scene with timeline } := by
  by_cases hlost : scene.Lost
  · exact ⟨h.offset, .inl hlost⟩
  · exact ⟨h.offset, .inr (hqueue hlost (h.queue.resolve_left hlost))⟩

private theorem Timed.act (h : scene.Timed) {scheduled : List ScheduledAction}
    (hact : scene.Act scheduled next) : next.Timed := by
  cases hact with
  | keep => exact h
  | insert p => exact h.of_sameTime ⟨rfl, rfl, rfl, rfl, rfl⟩
  | put howned p => exact h.of_sameTime ⟨rfl, rfl, rfl, rfl, rfl⟩
  | enact henact => exact h.of_sameTime (changed_enact henact).sameTime
  | schedule delay effect =>
    have hqueue (hclock : ¬ scene.Lost) (hordered : Ordered scene.timeline.actions) :
        Ordered (scene.timeline.insert ⟨scene.stamp delay, effect⟩).actions := by
      refine (Timeline.Request.insert ⟨scene.stamp delay, effect⟩).perform_ordered hordered ?_
      intro a ha
      rw [List.mem_singleton.mp ha]
      exact h.isNaN_stamp hclock delay
    exact h.of_queue hqueue
  | scheduleAll delay effects =>
    have hqueue (hclock : ¬ scene.Lost) (hordered : Ordered scene.timeline.actions) :
        Ordered (scene.timeline.insertBatch
          (effects.map (ScheduledAction.mk (scene.stamp delay)))).actions := by
      refine (Timeline.Request.insertBatch _).perform_ordered hordered fun a ha => ?_
      obtain ⟨effect, -, rfl⟩ := List.mem_map.mp ha
      exact h.isNaN_stamp hclock delay
    exact h.of_queue hqueue
  | delay hdelay =>
    rw [scheduleDelay] at hdelay
    split at hdelay
    · obtain rfl := Except.ok.inj hdelay
      exact ⟨le_trans_time h.offset (le_add_of_nonneg h.offset (nonneg_greatest _)), h.queue⟩
    · cases hdelay
  | finishRecording =>
    rw [finishRecording]
    split <;> exact ⟨h.offset, h.queue⟩

private theorem Timed.enterFrame (h : scene.Timed) (dt : Float) : (scene.enterFrame dt).Timed := by
  refine ⟨h.offset, ?_⟩
  rcases h.queue with (hnan | hdown) | hordered
  · exact .inl (.inl (isNaN_add_of_isNaN hnan dt))
  · exact .inl (add_of_infinite_down hdown dt)
  · refine .inr ⟨fun a ha => hordered.numbers a (List.mem_of_mem_drop ha), ?_⟩
    exact hordered.sorted.drop

/-- Whatever happens to a scene, it stays so. -/
theorem relates_timed (gate : Scene → Float → Prop) :
    Course.Relates gate fun scene next => scene.Timed → next.Timed where
  refl _ := id
  trans _ _ _ h h' := h' ∘ h
  act _ _ _ hact h := h.act hact
  enterFrame _ dt _ h := h.enterFrame dt
  failed _ h := ⟨h.offset, h.queue⟩
  animate _ _ _ _ hmoved h := h.of_sameTime (sameTime_animate hmoved)

end Scene

/-! ## Frames in which an action fails -/

/-- A frame in which a due action fails when its turn comes ends as it would if that action were not
pending, with one failure more. -/
def Isolates (invoke : Invoker σ) (world : World σ) (dt : Float) : Prop :=
  ∀ before action after reached error last,
    world.scene.dueWithin dt = before ++ action :: after →
    (fireAll invoke before).run (world.withScene (world.scene.enterFrame dt)) = .ok ((), reached) →
    (apply invoke action.effect).run reached = .ok (.error error, last) →
    EndAlike 1 ((update invoke dt).run (world.withScene (world.scene.without before.length)))
      ((update invoke dt).run world)

private theorem fireAll_append (invoke : Invoker σ) (first rest : List ScheduledAction) :
    fireAll invoke (first ++ rest) = fireAll invoke first >>= fun _ => fireAll invoke rest := by
  induction first with
  | nil => rw [List.nil_append, fireAll, pure_bind]
  | cons action others ih => rw [List.cons_append, fireAll, fireAll, ih, bind_assoc]

/-- A failing action leaves the world that it finds, with one failure more, and what follows does
not depend on that. -/
theorem isolates_update {invoke : Invoker σ} (hsafe : invoke.Safe)
    (hinvoke : ∀ call, Indifferent (invoke call)) {world : World σ} {dt : Float}
    (hdivided : world.scene.Divided dt) : Isolates invoke world dt := by
  intro before action after reached error last hdue hbefore hfails
  obtain ⟨hothers, hstart⟩ := hdivided.without hdue
  have hrun (w : World σ) : (update invoke dt).run w =
      (fireAll invoke (w.scene.dueWithin dt) >>= fun _ => animate dt).run
        (w.withScene (w.scene.enterFrame dt)) := rfl
  have hwith : (update invoke dt).run world =
      (fireAll invoke after >>= fun _ => animate dt).run
        (reached.settle action (.error error)) := by
    rw [apply_of_error hsafe hfails] at hfails
    rw [hrun, hdue, fireAll_append, bind_assoc, Action.bind_of_ok hbefore, fireAll, bind_assoc,
      Action.bind_of_ok (run_fire hfails)]
  have hwithout : (update invoke dt).run (world.withScene (world.scene.without before.length)) =
      (fireAll invoke after >>= fun _ => animate dt).run reached := by
    rw [hrun, World.withScene, hothers, hstart, fireAll_append, bind_assoc]
    exact Action.bind_of_ok hbefore
  rw [hwith, hwithout]
  refine (indifferent_fireAll hinvoke after).bind (fun _ => indifferent_animate dt) 1 _ _ ?_
  exact ⟨rfl, rfl⟩

/-- With a host that comes with a scene, an effect that fails changes nothing, and a frame in which
a due action fails when its turn comes ends as it would without that action, with one failure more,
if what is due stands in front of what is not. That is so in every scene, whatever has happened to
it, unless the clock of the frame is infinite downwards. -/
theorem failures_isolated {invoke : Invoker σ} (hinvoke : Provided invoke) :
    (∀ effect error world next,
      (apply invoke effect).run world = .ok (.error error, next) → next = world) ∧
    (∀ world dt, world.scene.Divided dt → Isolates invoke world dt) ∧
    ∀ {α : Type} (m : Action σ α) bounds host ms a last,
      Course anyFrame m ⟨.initial bounds host, 0⟩ ms a last →
      ∀ dt, exact (last.scene.clock + dt) ≠ .infinity .negative → last.scene.Divided dt := by
  refine ⟨fun _ _ _ _ => apply_of_error hinvoke.safe, fun _ _ => ?_, ?_⟩
  · exact isolates_update hinvoke.safe hinvoke.indifferent
  · intro α m bounds host ms a last hcourse dt hclock
    have htimed := ((Scene.relates_timed anyFrame).closed.course hcourse).start
    exact (htimed (Scene.timed_empty bounds)).divided hclock

/-- A world in which a primitive that there is not is to be shown before a function is called. -/
def missingWorld : World Session where
  scene := { Scene.empty ⟨8, 8⟩ with
    timeline := ⟨[⟨1, .change (.show ⟨0⟩)⟩, ⟨1, .invoke ⟨⟨"greet", [],
      [.expr .start (.call .start (.name .start "Print") [.positional (.text .start "here")])],
      .start⟩, []⟩⟩]⟩
    phase := .playing }
  host := .ofSettings .default
  log := #[]

theorem failures_isolated_missingWorld :
    Provided (Session.outermost Standard.commands).invoke ∧ missingWorld.scene.Divided 2 ∧
      EndAlike 1
        ((Session.update Standard.commands 2).run
          (missingWorld.withScene (missingWorld.scene.without 0)))
        ((Session.update Standard.commands 2).run missingWorld) ∧
      ((Session.update Standard.commands 2).run missingWorld).toOption.any fun (_, world) =>
        world.scene.failures == 1 && world.host.output == #["here"] := by
  have hprovided : Provided (Session.outermost Standard.commands).invoke :=
    .session Session.depthLimit
  have hdivided : missingWorld.scene.Divided 2 :=
    ⟨_, [], (List.append_nil _).symm, by decide, nofun⟩
  have hdue : missingWorld.scene.dueWithin 2 = [] ++ missingWorld.scene.timeline.actions := by
    have hcount : missingWorld.scene.timeline.dueCount (missingWorld.scene.clock + 2) = 2 := by
      decide +kernel
    rw [Scene.dueWithin, drainDue, hcount]
    rfl
  refine ⟨hprovided, hdivided, ?_, by decide +kernel⟩
  exact (failures_isolated hprovided).2.1 _ _ hdivided [] _ _ _ _ _ hdue rfl rfl

/-- A scene whose clock went infinitely far back, before an action was scheduled for then and
another one with an infinite delay. The stamp of the second one is not a number. -/
def Scene.lost : Scene :=
  { empty ⟨8, 8⟩ with
    slots := #[some (.rect 1 1 true)]
    timeline := ⟨[⟨-1 / 0 + 1 / 0, .change (.show ⟨0⟩)⟩, ⟨-1 / 0, .change (.remove ⟨7⟩)⟩,
      ⟨5, .change (.show ⟨0⟩)⟩]⟩
    phase := .playing
    clock := -1 / 0 }

private theorem EndAlike.displays_eq {more : Nat} {first second : Except Fault (α × World σ)}
    (h : EndAlike more first second) :
    first.toOption.map (·.2.scene.display) = second.toOption.map (·.2.scene.display) := by
  cases h with
  | fault fault => rfl
  | ok a h => exact congrArg some (congrArg Scene.display h.scene).symm

/-- Where the clock is lost, an action that is not due can fire because of a failing one. -/
theorem not_isolates_lost : ¬ ∀ world dt, Isolates (noScript : Invoker Unit) world dt := by
  intro h
  have hdue : Scene.lost.dueWithin 0 =
      [⟨-1 / 0 + 1 / 0, .change (.show ⟨0⟩)⟩] ++ ⟨-1 / 0, .change (.remove ⟨7⟩)⟩ :: [] := by
    have hcount : Scene.lost.timeline.dueCount (Scene.lost.clock + 0) = 2 := by decide +kernel
    rw [Scene.dueWithin, drainDue, hcount]
    rfl
  have hdisplays := (h ⟨Scene.lost, (), #[]⟩ 0 _ _ _ _ _ _ hdue rfl rfl).displays_eq
  revert hdisplays
  decide +kernel

end Animatic
