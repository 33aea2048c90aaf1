import Animatic.Proofs.Number.Sums
import Animatic.Proofs.Playback.Changes
import Animatic.Proofs.Playback.Course
import Animatic.Proofs.Timeline.FiringOrder

/-!
# The clock of a scene

Stamps never lie before the start, so nothing fires, and no function runs, before the clock has
started. While functions run the clock does not go back, even if a frame was given a negative step.

* `Scene.Standing`: what holds of a scene between frames.
* `Scene.Running`: what holds where functions run.
* `Scene.Act.queued`, `Scene.dueWithin_eq`: what actions and frames do to the queue.
* `Course.RunningClosed`: what every course has if its steps have it where functions run.
-/

namespace Animatic

open Number Playback Timeline

/-! ## Times from the start on -/

/-- A time that is not before the start. -/
structure Elapsed (time : Float) : Prop where
  timely : Timely time
  nonneg : 0 ≤ time

theorem elapsed_zero : Elapsed 0 := ⟨⟨by decide, by decide⟩, by decide⟩

theorem Elapsed.add {time amount : Float} (h : Elapsed time) (hamount : 0 ≤ amount) :
    Elapsed (time + amount) ∧ time ≤ time + amount := by
  have hle := le_add_of_nonneg h.nonneg hamount
  have hsum := (numbers_of_le hle).2
  refine ⟨⟨⟨hsum, notNegativeZero_add h.timely.notNegativeZero amount⟩, ?_⟩, hle⟩
  have hnonneg := (nonneg_iff_rank h.timely.number).mp h.nonneg
  rw [le_iff_rank h.timely.number hsum] at hle
  exact (nonneg_iff_rank hsum).mpr (hnonneg.trans hle)

/-- What something is not above is a number, and so not above itself. -/
theorem le_self_of_le {a b : Float} (h : a ≤ b) : b ≤ b := le_refl_time (numbers_of_le h).2

namespace Scene

variable {scene next : Scene}

/-! ## Scenes between frames and within them -/

/-- What holds of a scene between frames: pending actions are in order, and no stamp lies before the
start. -/
structure Standing (scene : Scene) : Prop where
  ascending : Ascending scene.timeline.actions
  stamps : ∀ a ∈ scene.timeline.actions, 0 ≤ a.time
  offset : Elapsed scene.offset
  clock : scene.clock.toBits ≠ (-0.0 : Float).toBits

/-- What holds of a scene where functions run: the clock has started and is not ahead of the time
that stamps are relative to. -/
structure Running (scene : Scene) : Prop extends scene.Standing where
  started : 0 ≤ scene.clock
  behind : scene.clock ≤ scene.now

theorem Standing.of_sameTime (h : scene.Standing) (hsame : scene.SameTime next) :
    next.Standing := by
  refine ⟨?_, ?_, ?_, ?_⟩
  · rw [hsame.timeline]
    exact h.ascending
  · rw [hsame.timeline]
    exact h.stamps
  · rw [hsame.offset]
    exact h.offset
  · rw [hsame.clock]
    exact h.clock

theorem now_of_sameTime (hsame : scene.SameTime next) : next.now = scene.now := by
  rw [now, now, hsame.phase, hsame.offset, hsame.clock]

theorem Running.of_sameTime (h : scene.Running) (hsame : scene.SameTime next) : next.Running := by
  refine ⟨h.toStanding.of_sameTime hsame, ?_, ?_⟩
  · rw [hsame.clock]
    exact h.started
  · rw [hsame.clock, now_of_sameTime hsame]
    exact h.behind

/-- In a playing scene functions can run once the clock has started. -/
theorem Standing.running (h : scene.Standing) (hphase : scene.phase = .playing)
    (hclock : 0 ≤ scene.clock) : scene.Running := by
  refine ⟨h, hclock, ?_⟩
  rw [now, hphase]
  exact le_self_of_le hclock

theorem Running.elapsed_clock (h : scene.Running) : Elapsed scene.clock :=
  ⟨⟨(numbers_of_le h.started).2, h.clock⟩, h.started⟩

theorem Running.elapsed_now (h : scene.Running) : Elapsed scene.now := by
  rw [now]
  split
  · exact h.offset
  · exact h.elapsed_clock

/-- A stamp is not before the start, nor before the clock. -/
theorem Running.elapsed_stamp (h : scene.Running) (delay : Float) :
    Elapsed (scene.stamp delay) ∧ scene.clock ≤ scene.stamp delay := by
  obtain ⟨helapsed, hle⟩ := h.elapsed_now.add (nonneg_greatest delay)
  exact ⟨helapsed, le_trans_time h.behind hle⟩

/-! ## Actions -/

/-- What is done to a scene outside the frames leaves its clock alone, and what is scheduled by it
joins the queue behind what is pending at the same time. -/
structure Queued (scene : Scene) (scheduled : List ScheduledAction) (next : Scene) : Prop where
  queue : InFiringOrder (scene.timeline.actions ++ scheduled) next.timeline.actions
  stamps : ∀ a ∈ scheduled, Elapsed a.time ∧ scene.clock ≤ a.time
  running : next.Running
  clock : next.clock = scene.clock
  phase : scene.phase = .playing → next.phase = .playing
  failures : next.failures = scene.failures

theorem Queued.of_sameTime (h : scene.Running) (hsame : scene.SameTime next) :
    scene.Queued [] next := by
  refine ⟨?_, nofun, h.of_sameTime hsame, hsame.clock, hsame.phase.trans, hsame.failures⟩
  rw [List.append_nil, hsame.timeline]
  exact h.ascending.ordered.inFiringOrder

/-- A new queue of stamps that are not before the start. -/
private theorem Queued.of_queue (h : scene.Running) {scheduled : List ScheduledAction}
    {timeline : Timeline}
    (hqueue : InFiringOrder (scene.timeline.actions ++ scheduled) timeline.actions)
    (hstamps : ∀ a ∈ scheduled, Elapsed a.time ∧ scene.clock ≤ a.time) :
    scene.Queued scheduled { scene with timeline } := by
  have hall : ∀ a ∈ scene.timeline.actions ++ scheduled, Elapsed a.time := by
    intro a ha
    rcases List.mem_append.mp ha with ha | ha
    · exact ⟨h.ascending.timely a ha, h.stamps a ha⟩
    · exact (hstamps a ha).1
  refine ⟨hqueue, hstamps, ⟨⟨?_, ?_, h.offset, h.clock⟩, h.started, h.behind⟩, rfl, id, rfl⟩
  · exact hqueue.ascending fun a ha => (hall a ha).timely
  · exact fun a ha => (hall a (hqueue.same.mem_iff.mp ha)).nonneg

theorem Act.queued {scheduled : List ScheduledAction} (hact : scene.Act scheduled next)
    (h : scene.Running) : scene.Queued scheduled next := by
  cases hact with
  | keep => exact .of_sameTime h (.refl scene)
  | insert p => exact .of_sameTime h ⟨rfl, rfl, rfl, rfl, rfl⟩
  | put howned p => exact .of_sameTime h ⟨rfl, rfl, rfl, rfl, rfl⟩
  | enact henact => exact .of_sameTime h (changed_enact henact).sameTime
  | schedule delay effect =>
    have hstamp := h.elapsed_stamp delay
    refine .of_queue h ?_ fun a ha => ?_
    · exact h.ascending.ordered.inFiringOrder.insert h.ascending.ordered.numbers
        hstamp.1.timely.number
    · rw [List.mem_singleton.mp ha]
      exact hstamp
  | scheduleAll delay effects =>
    have hstamp := h.elapsed_stamp delay
    have hstamps : ∀ a ∈ effects.map (ScheduledAction.mk (scene.stamp delay)),
        Elapsed a.time ∧ scene.clock ≤ a.time := by
      intro a ha
      obtain ⟨effect, -, rfl⟩ := List.mem_map.mp ha
      exact hstamp
    refine .of_queue h ?_ hstamps
    exact h.ascending.ordered.inFiringOrder.insertBatch h.ascending.timely
      fun a ha => (hstamps a ha).1.timely
  | delay hdelay =>
    rw [scheduleDelay] at hdelay
    split at hdelay
    · rename_i hphase
      obtain rfl := Except.ok.inj hdelay
      obtain ⟨hoffset, hle⟩ := h.offset.add (nonneg_greatest _)
      have hnow : scene.now = scene.offset := by rw [now, hphase]
      have hbehind := h.behind
      rw [hnow] at hbehind
      refine ⟨?_, nofun, ⟨⟨h.ascending, h.stamps, hoffset, h.clock⟩, h.started, ?_⟩, rfl, ?_, rfl⟩
      · rw [List.append_nil]
        exact h.ascending.ordered.inFiringOrder
      · rw [now, hphase]
        exact le_trans_time hbehind hle
      · intro hplaying
        rw [hplaying] at hphase
        cases hphase
    · cases hdelay
  | finishRecording =>
    rw [Scene.finishRecording]
    split
    · exact .of_sameTime h (.refl scene)
    · have hstanding : Standing { scene with phase := .playing } :=
        ⟨h.ascending, h.stamps, h.offset, h.clock⟩
      refine ⟨?_, nofun, hstanding.running rfl h.started, rfl, fun _ => rfl, rfl⟩
      rw [List.append_nil]
      exact h.ascending.ordered.inFiringOrder

/-! ## Frames -/

private theorem Standing.filter (h : scene.Standing) (p : ScheduledAction → Bool) :
    Ascending (scene.timeline.actions.filter p) :=
  ⟨fun a ha => h.ascending.timely a (List.mem_of_mem_filter ha), h.ascending.sorted.filter p⟩

/-- Just what has come to be due leaves the queue. -/
theorem Standing.drainDue_eq (h : scene.Standing) (now : Float) :
    (scene.timeline.drainDue now).1 = scene.timeline.actions.filter (·.time ≤ now) ∧
      (scene.timeline.drainDue now).2.actions =
        scene.timeline.actions.filter (¬ ·.time ≤ now) :=
  h.ascending.ordered.drainDue_eq now

theorem dueWithin_eq (h : scene.Standing) (dt : Float) :
    scene.dueWithin dt = scene.timeline.actions.filter (·.time ≤ scene.clock + dt) :=
  (h.drainDue_eq _).1

theorem Standing.enterFrame (h : scene.Standing) (dt : Float) : (scene.enterFrame dt).Standing := by
  have hleft := (h.drainDue_eq (scene.clock + dt)).2
  refine ⟨?_, ?_, h.offset, notNegativeZero_add h.clock dt⟩
  · rw [Scene.enterFrame, hleft]
    exact h.filter _
  · intro a ha
    rw [Scene.enterFrame, hleft] at ha
    exact h.stamps a (List.mem_of_mem_filter ha)

/-- What is due in a frame is due by its clock and was not stamped before the start. -/
theorem Standing.of_mem_dueWithin (h : scene.Standing) {dt : Float} {action : ScheduledAction}
    (hmem : action ∈ scene.dueWithin dt) :
    action.time ≤ (scene.enterFrame dt).clock ∧ 0 ≤ (scene.enterFrame dt).clock := by
  rw [dueWithin_eq h] at hmem
  obtain ⟨hpending, hdue⟩ := List.mem_filter.mp hmem
  have hdue := of_decide_eq_true hdue
  exact ⟨hdue, le_trans_time (h.stamps action hpending) hdue⟩

/-- Lets the frames through that time makes when it passes in a playing scene. -/
def passing (scene : Scene) (dt : Float) : Prop := scene.phase = .playing ∧ 0 ≤ dt

/-- What becomes of a scene where functions run. -/
structure Advances (scene last : Scene) : Prop where
  running : last.Running
  clock : scene.clock ≤ last.clock
  phase : scene.phase = .playing → last.phase = .playing

theorem Running.advances_refl (h : scene.Running) : scene.Advances scene :=
  ⟨h, le_self_of_le h.started, id⟩

theorem Advances.trans {last : Scene} (h : scene.Advances next) (h' : next.Advances last) :
    scene.Advances last :=
  ⟨h'.running, le_trans_time h.clock h'.clock, fun hphase => h'.phase (h.phase hphase)⟩

theorem Running.advances_of_sameTime (h : scene.Running) (hsame : scene.SameTime next) :
    scene.Advances next :=
  ⟨h.of_sameTime hsame, hsame.clock ▸ h.advances_refl.clock, hsame.phase.trans⟩

theorem Queued.advances {scheduled : List ScheduledAction} (h : scene.Running)
    (hqueued : scene.Queued scheduled next) : scene.Advances next :=
  ⟨hqueued.running, hqueued.clock ▸ h.advances_refl.clock, hqueued.phase⟩

theorem Running.advances_enterFrame (h : scene.Running) {dt : Float} (hpassing : scene.passing dt) :
    scene.Advances (scene.enterFrame dt) := by
  obtain ⟨helapsed, hle⟩ := h.elapsed_clock.add hpassing.2
  exact ⟨(h.toStanding.enterFrame dt).running hpassing.1 helapsed.nonneg, hle, id⟩

end Scene

theorem World.advances_settle {σ : Type} {world : World σ} (h : world.scene.Running)
    (action : ScheduledAction) (outcome : Except SceneError Unit) :
    world.scene.Advances (world.settle action outcome).scene := by
  cases outcome with
  | ok value => exact h.advances_refl
  | error e =>
    exact ⟨⟨⟨h.ascending, h.stamps, h.offset, h.clock⟩, h.started, h.behind⟩,
      h.advances_refl.clock, id⟩

/-! ## Courses where functions run -/

section

variable {σ : Type} {P : Stage σ → List (Moment σ) → Stage σ → Prop}
  {Q : Nat → List ScheduledAction → Stage σ → List (Moment σ) → Stage σ → Prop}

/-- What holds of every course that starts where functions run holds of its steps and is kept along
it. -/
structure Course.RunningClosed (P : Stage σ → List (Moment σ) → Stage σ → Prop)
    (Q : Nat → List ScheduledAction → Stage σ → List (Moment σ) → Stage σ → Prop) : Prop where
  refl : ∀ s, P s [] s
  act : ∀ s scheduled next, s.scene.Running → s.scene.Queued scheduled next.scene →
    P s [⟨.act scheduled, next⟩] (s.withWorld next)
  trans : ∀ s middle last ms ms', P s ms middle → P middle ms' last → P s (ms ++ ms') last
  frame : ∀ s fired dt ms moved entries, s.scene.Running → s.scene.passing dt →
    Q s.frames (s.scene.dueWithin dt) (s.enterFrame dt) ms fired → fired.scene.SameTime moved →
    P s (⟨.begin s.frames s.scene.timeline.actions, (s.enterFrame dt).world⟩ ::
      (ms ++ [⟨.finish s.frames, fired.world.animated moved entries⟩]))
      (fired.withWorld (fired.world.animated moved entries))
  none : ∀ frame s, Q frame [] s [] s
  more : ∀ frame action rest s middle last ms ms' outcome, s.scene.Running →
    s.scene.Advances middle.scene → P s ms middle →
    Q frame rest (middle.withWorld (middle.world.settle action outcome)) ms' last →
    Q frame (action :: rest) s (⟨.apply frame action, s.world⟩ ::
      (ms ++ ⟨.applied frame action outcome, middle.world.settle action outcome⟩ :: ms')) last

namespace Course.RunningClosed

variable (h : RunningClosed P Q)

include h

theorem closed : Closed Scene.passing
    (fun s ms last => s.scene.Running → s.scene.Advances last.scene ∧ P s ms last)
    (fun frame due s ms last => s.scene.Running →
      s.scene.Advances last.scene ∧ Q frame due s ms last) where
  refl s hs := ⟨hs.advances_refl, h.refl s⟩
  act s scheduled next hact hs :=
    ⟨(hact.queued hs).advances hs, h.act s scheduled next hs (hact.queued hs)⟩
  trans s middle last ms ms' hfirst hrest hs := by
    obtain ⟨hadvances, hp⟩ := hfirst hs
    obtain ⟨hadvances', hp'⟩ := hrest hadvances.running
    exact ⟨hadvances.trans hadvances', h.trans _ _ _ _ _ hp hp'⟩
  frame s fired dt ms moved entries hpassing hfirings hanimate hs := by
    have hbegin : s.scene.Advances (s.enterFrame dt).scene := hs.advances_enterFrame hpassing
    obtain ⟨hadvances, hq⟩ := hfirings hbegin.running
    have hsame := Scene.sameTime_animate hanimate
    have hend := hadvances.running.advances_of_sameTime hsame
    exact ⟨hbegin.trans (hadvances.trans hend), h.frame _ _ _ _ _ _ hs hpassing hq hsame⟩
  none frame s hs := ⟨hs.advances_refl, h.none frame s⟩
  more frame action rest s middle last ms ms' outcome happly hrest hs := by
    obtain ⟨hadvances, hp⟩ := happly hs
    have hsettle := World.advances_settle hadvances.running action outcome
    obtain ⟨hadvances', hq⟩ := hrest hsettle.running
    exact ⟨hadvances.trans (hsettle.trans hadvances'),
      h.more _ _ _ _ _ _ _ _ _ hs hadvances hp hq⟩

/-- A frame between which and the next one no function runs may be given any step: if something is
due in it then its clock has started. -/
theorem of_standing {invoke : Invoker σ} {dt : Float} {s last : Stage σ} {ms : List (Moment σ)}
    (hframe : Frame Scene.passing invoke dt s ms last) (hs : s.scene.Standing)
    (hphase : s.scene.phase = .playing) :
    last.scene.Standing ∧ last.scene.phase = .playing ∧
      ∃ inner fired moved entries,
        ms = ⟨.begin s.frames s.scene.timeline.actions, (s.enterFrame dt).world⟩ ::
          (inner ++ [⟨.finish s.frames, fired.world.animated moved entries⟩]) ∧
        last = fired.withWorld (fired.world.animated moved entries) ∧
        Q s.frames (s.scene.dueWithin dt) (s.enterFrame dt) inner fired ∧
        fired.scene.SameTime moved := by
  cases hframe with
  | @intro _ _ _ fired inner moved entries hfirings hanimate =>
    have hsame := Scene.sameTime_animate hanimate
    have hbegin : (s.enterFrame dt).scene.Standing := hs.enterFrame dt
    have hinner : Q s.frames (s.scene.dueWithin dt) (s.enterFrame dt) inner fired ∧
        fired.scene.Standing ∧ fired.scene.phase = .playing := by
      cases hdue : s.scene.dueWithin dt with
      | nil =>
        rw [hdue] at hfirings
        cases hfirings
        exact ⟨h.none _ _, hbegin, hphase⟩
      | cons action rest =>
        have hstarted := (hs.of_mem_dueWithin (hdue ▸ List.mem_cons_self)).2
        have hrunning := hbegin.running hphase hstarted
        obtain ⟨hadvances, hq⟩ := h.closed.firings hfirings hrunning
        exact ⟨hdue ▸ hq, hadvances.running.toStanding, hadvances.phase hphase⟩
    obtain ⟨hq, hfired, hplaying⟩ := hinner
    exact ⟨hfired.of_sameTime hsame, hsame.phase.trans hplaying, inner, fired, moved, entries, rfl,
      rfl, hq, hsame⟩

end Course.RunningClosed

end

end Animatic
