import Animatic.Scene.Playback

/-!
# Courses of playback

A course is what happens while a computation on a world runs: which effects are scheduled, which
frames begin and end, and which effects are applied in them. A function that an effect calls may let
time pass, so a frame may stand inside another one; frames are numbered in the order in which they
begin.

* `Scene.Act`: what is done to a scene outside the frames.
* `Course`, `Frame`, `Firings`: the courses of a computation, a frame and the effects of a frame.
* `Course.run_eq`: a computation does what its courses say.
* `Course.Closed`: what every course has if its steps have it.
-/

namespace Animatic

open Playback

variable {σ : Type} {α β : Type}

/-! ## Steps -/

/-- What is done to a scene outside the frames, with the actions that are scheduled by it. -/
inductive Scene.Act : Scene → List ScheduledAction → Scene → Prop where
  | keep (scene : Scene) : Act scene [] scene
  | insert (scene : Scene) (p : Primitive) : Act scene [] (scene.insert p).2
  /-- A primitive is changed in its place. -/
  | put {scene : Scene} {id : PrimitiveId} (h : scene.contains id = true) (p : Primitive) :
      Act scene [] (scene.put id p)
  | schedule (scene : Scene) (delay : Float) (effect : Effect) :
      Act scene [⟨scene.stamp delay, effect⟩] (scene.schedule delay effect)
  | scheduleAll (scene : Scene) (delay : Float) (effects : List Effect) :
      Act scene (effects.map (⟨scene.stamp delay, ·⟩)) (scene.scheduleAll delay effects)
  | delay {scene next : Scene} {seconds : Float} (h : scene.scheduleDelay seconds = .ok next) :
      Act scene [] next
  | finishRecording (scene : Scene) : Act scene [] scene.finishRecording.1
  | enact {scene next : Scene} {change : Change} {entries : List LogEntry}
      (h : scene.enact change = .ok (next, entries)) : Act scene [] next

/-- The actions that are due in a frame of `dt` seconds, in firing order. -/
def Scene.dueWithin (scene : Scene) (dt : Float) : List ScheduledAction :=
  (scene.timeline.drainDue (scene.clock + dt)).1

/-- A scene at the start of a frame: the clock has moved on, and what is due has left the
timeline. -/
def Scene.enterFrame (scene : Scene) (dt : Float) : Scene :=
  { scene with
    clock := scene.clock + dt
    timeline := (scene.timeline.drainDue (scene.clock + dt)).2 }

/-- A world with a changed scene. -/
def World.withScene (world : World σ) (scene : Scene) : World σ := { world with scene }

/-- A world behind the application of a scheduled effect: a failure is counted and logged. -/
def World.settle (world : World σ) (action : ScheduledAction) : Except SceneError Unit → World σ
  | .ok () => world
  | .error e =>
    { world with
      scene := { world.scene with failures := world.scene.failures + 1 }
      log := world.log.push ⟨.warn, "scheduled action at "
        ++ Number.fixed 3 (Number.exact action.time) ++ "s failed: " ++ e.message⟩ }

/-- A world behind the animation of a frame. -/
def World.animated (world : World σ) (moved : Scene) (entries : List LogEntry) : World σ :=
  { world with scene := moved, log := world.log ++ entries.toArray }

/-! ## Courses -/

/-- Something that happens. -/
inductive Event where
  /-- The scene is acted on, and actions are scheduled. -/
  | act (scheduled : List ScheduledAction)
  /-- A frame begins, with the actions that were pending before it. -/
  | begin (frame : Nat) (pending : List ScheduledAction)
  /-- The effect of an action is about to be applied in a frame. -/
  | apply (frame : Nat) (action : ScheduledAction)
  /-- The effect of an action has been applied. -/
  | applied (frame : Nat) (action : ScheduledAction) (outcome : Except SceneError Unit)
  | finish (frame : Nat)

/-- An event with the world as it is then; what the event changes is changed in it. -/
structure Moment (σ : Type) where
  event : Event
  world : World σ

/-- The scene of a moment. -/
abbrev Moment.scene (moment : Moment σ) : Scene := moment.world.scene

/-- A world with the number of the frames that have begun. -/
structure Stage (σ : Type) where
  world : World σ
  frames : Nat

namespace Stage

/-- The scene of a stage. -/
abbrev scene (s : Stage σ) : Scene := s.world.scene

/-- A stage with another world. -/
def withWorld (s : Stage σ) (world : World σ) : Stage σ := { s with world }

/-- A stage at the start of a frame. -/
def enterFrame (s : Stage σ) (dt : Float) : Stage σ :=
  ⟨s.world.withScene (s.scene.enterFrame dt), s.frames + 1⟩

end Stage

mutual

/-- What happens while a computation runs from a stage to another one. Frames inside it are let
through by `gate`, which is told the scene and the seconds. -/
inductive Course (gate : Scene → Float → Prop) :
    {α : Type} → Action σ α → Stage σ → List (Moment σ) → α → Stage σ → Prop where
  | pure {α : Type} (a : α) (s : Stage σ) : Course gate (pure a) s [] a s
  | get (s : Stage σ) : Course gate get s [] s.world s
  | act {f : World σ → World σ} {s : Stage σ} {scheduled : List ScheduledAction}
      (h : s.scene.Act scheduled (f s.world).scene) :
      Course gate (modify f) s [⟨.act scheduled, f s.world⟩] () (s.withWorld (f s.world))
  | bind {α β : Type} {m : Action σ α} {f : α → Action σ β} {s middle last : Stage σ}
      {ms ms' : List (Moment σ)} {a : α} {b : β} (hfirst : Course gate m s ms a middle)
      (hrest : Course gate (f a) middle ms' b last) : Course gate (m >>= f) s (ms ++ ms') b last
  | frame {invoke : Invoker σ} {dt : Float} {s last : Stage σ} {ms : List (Moment σ)}
      (hgate : gate s.scene dt) (h : Frame gate invoke dt s ms last) :
      Course gate (update invoke dt) s ms () last

/-- What happens in a frame of `dt` seconds. -/
inductive Frame (gate : Scene → Float → Prop) :
    Invoker σ → Float → Stage σ → List (Moment σ) → Stage σ → Prop where
  | intro {invoke : Invoker σ} {dt : Float} {s fired : Stage σ} {ms : List (Moment σ)}
      {moved : Scene} {entries : List LogEntry}
      (hfirings : Firings gate invoke s.frames (s.scene.dueWithin dt) (s.enterFrame dt) ms fired)
      (hanimate : fired.scene.animate dt = .ok (moved, entries)) :
      Frame gate invoke dt s
        (⟨.begin s.frames s.scene.timeline.actions, (s.enterFrame dt).world⟩ ::
          (ms ++ [⟨.finish s.frames, fired.world.animated moved entries⟩]))
        (fired.withWorld (fired.world.animated moved entries))

/-- What happens while the actions that are due in a frame are fired in order. -/
inductive Firings (gate : Scene → Float → Prop) :
    Invoker σ → Nat → List ScheduledAction → Stage σ → List (Moment σ) → Stage σ → Prop where
  | none {invoke : Invoker σ} {frame : Nat} (s : Stage σ) : Firings gate invoke frame [] s [] s
  | more {invoke : Invoker σ} {frame : Nat} {action : ScheduledAction}
      {rest : List ScheduledAction} {s middle last : Stage σ} {ms ms' : List (Moment σ)}
      {outcome : Except SceneError Unit}
      (happly : Course gate (apply invoke action.effect) s ms outcome middle)
      (hrest : Firings gate invoke frame rest
        (middle.withWorld (middle.world.settle action outcome)) ms' last) :
      Firings gate invoke frame (action :: rest) s
        (⟨.apply frame action, s.world⟩ ::
          (ms ++ ⟨.applied frame action outcome, middle.world.settle action outcome⟩ :: ms'))
        last

end

/-! ## Computations and their courses -/

/-- What a computation in two steps gives comes from its steps. -/
theorem Action.bind_eq_ok {m : Action σ α} {f : α → Action σ β} {world next : World σ} {b : β}
    (h : (m >>= f).run world = .ok (b, next)) :
    ∃ a middle, m.run world = .ok (a, middle) ∧ (f a).run middle = .ok (b, next) := by
  rw [StateT.run_bind] at h
  cases hm : m.run world with
  | error e => rw [hm] at h; cases h
  | ok result => rw [hm] at h; exact ⟨result.1, result.2, rfl, h⟩

/-- A computation in two steps that end well. -/
theorem Action.bind_of_ok {m : Action σ α} {f : α → Action σ β} {world middle : World σ} {a : α}
    (h : m.run world = .ok (a, middle)) : (m >>= f).run world = (f a).run middle := by
  rw [StateT.run_bind, h]
  rfl

/-- Firing an action is applying its effect and settling how that ended. -/
theorem run_fire {invoke : Invoker σ} {action : ScheduledAction} {world middle : World σ}
    {outcome : Except SceneError Unit}
    (h : (apply invoke action.effect).run world = .ok (outcome, middle)) :
    (fire invoke action).run world = .ok ((), middle.settle action outcome) := by
  rw [fire, Action.bind_of_ok h]
  cases outcome <;> rfl

theorem run_animate {world : World σ} {dt : Float} {moved : Scene} {entries : List LogEntry}
    (h : world.scene.animate dt = .ok (moved, entries)) :
    (animate dt).run world = .ok ((), world.animated moved entries) := by
  have hlift : (liftM (world.scene.animate dt) : Action σ _).run world =
      .ok ((moved, entries), world) := by rw [h]; rfl
  exact (Action.bind_of_ok rfl).trans (Action.bind_of_ok hlift)

/-- A frame is its beginning, the effects that are due and the animation. -/
theorem run_update {invoke : Invoker σ} {dt : Float} {s : Stage σ} :
    (update invoke dt).run s.world =
      (fireAll invoke (s.scene.dueWithin dt) >>= fun _ => animate dt).run
        (s.enterFrame dt).world := rfl

theorem of_run_animate {world next : World σ} {dt : Float}
    (h : (animate dt).run world = .ok ((), next)) :
    ∃ moved entries, world.scene.animate dt = .ok (moved, entries) ∧
      next = world.animated moved entries := by
  cases hmoved : world.scene.animate dt with
  | error e =>
    obtain ⟨_, _, hscene, h⟩ := Action.bind_eq_ok h
    cases hscene
    obtain ⟨_, _, hlift, -⟩ := Action.bind_eq_ok h
    rw [hmoved] at hlift
    cases hlift
  | ok result =>
    rw [run_animate hmoved] at h
    obtain ⟨-, rfl⟩ := Prod.mk.inj (Except.ok.inj h)
    exact ⟨_, _, rfl, rfl⟩

section

variable {gate : Scene → Float → Prop}

/-- A computation does what its courses say. -/
theorem Course.run_eq {m : Action σ α} {s last : Stage σ} {ms : List (Moment σ)} {a : α}
    (h : Course gate m s ms a last) : m.run s.world = .ok (a, last.world) := by
  refine @Course.rec σ gate
    (fun {α} m s _ a last _ => StateT.run m s.world = .ok (a, last.world))
    (fun invoke dt s _ last _ => (update invoke dt).run s.world = .ok ((), last.world))
    (fun invoke _ due s _ last _ => (fireAll invoke due).run s.world = .ok ((), last.world))
    ?_ ?_ ?_ ?_ ?_ ?_ ?_ ?_ _ _ _ _ _ _ h
  · intro α a s
    rfl
  · intro s
    rfl
  · intro f s scheduled h
    rfl
  · intro α β m f s middle last ms ms' a b _ _ hfirst hrest
    rw [Action.bind_of_ok hfirst]
    exact hrest
  · intro invoke dt s last ms _ _ hframe
    exact hframe
  · intro invoke dt s fired ms moved entries _ hanimate hfirings
    rw [run_update, Action.bind_of_ok hfirings]
    exact run_animate hanimate
  · intro invoke frame s
    rfl
  · intro invoke frame action rest s middle last ms ms' outcome _ _ happly hrest
    rw [fireAll, Action.bind_of_ok (run_fire happly)]
    exact hrest

/-- Actions that fire do what their courses say. -/
theorem Firings.run_eq {invoke : Invoker σ} {frame : Nat} {due : List ScheduledAction}
    {s last : Stage σ} {ms : List (Moment σ)} (h : Firings gate invoke frame due s ms last) :
    (fireAll invoke due).run s.world = .ok ((), last.world) := by
  induction due generalizing s ms with
  | nil =>
    cases h
    rfl
  | cons action rest ih =>
    cases h with
    | more happly hrest =>
      rw [fireAll, Action.bind_of_ok (run_fire happly.run_eq)]
      exact ih hrest

/-- A frame does what its courses say. -/
theorem Frame.run_eq {invoke : Invoker σ} {dt : Float} {s last : Stage σ} {ms : List (Moment σ)}
    (h : Frame gate invoke dt s ms last) :
    (update invoke dt).run s.world = .ok ((), last.world) := by
  cases h with
  | intro hfirings hanimate =>
    rw [run_update, Action.bind_of_ok hfirings.run_eq]
    exact run_animate hanimate

/-! ## What courses have in common -/

/-- What holds of every course holds of its steps and is kept along it: `P` is said of courses and
`Q` of the firings in a frame. -/
structure Course.Closed (gate : Scene → Float → Prop)
    (P : Stage σ → List (Moment σ) → Stage σ → Prop)
    (Q : Nat → List ScheduledAction → Stage σ → List (Moment σ) → Stage σ → Prop) : Prop where
  refl : ∀ s, P s [] s
  act : ∀ s scheduled next, s.scene.Act scheduled next.scene →
    P s [⟨.act scheduled, next⟩] (s.withWorld next)
  trans : ∀ s middle last ms ms', P s ms middle → P middle ms' last → P s (ms ++ ms') last
  frame : ∀ s fired dt ms moved entries, gate s.scene dt →
    Q s.frames (s.scene.dueWithin dt) (s.enterFrame dt) ms fired →
    fired.scene.animate dt = .ok (moved, entries) →
    P s (⟨.begin s.frames s.scene.timeline.actions, (s.enterFrame dt).world⟩ ::
      (ms ++ [⟨.finish s.frames, fired.world.animated moved entries⟩]))
      (fired.withWorld (fired.world.animated moved entries))
  none : ∀ frame s, Q frame [] s [] s
  more : ∀ frame action rest s middle last ms ms' outcome, P s ms middle →
    Q frame rest (middle.withWorld (middle.world.settle action outcome)) ms' last →
    Q frame (action :: rest) s (⟨.apply frame action, s.world⟩ ::
      (ms ++ ⟨.applied frame action outcome, middle.world.settle action outcome⟩ :: ms')) last

namespace Course.Closed

variable {P : Stage σ → List (Moment σ) → Stage σ → Prop}
  {Q : Nat → List ScheduledAction → Stage σ → List (Moment σ) → Stage σ → Prop}
  (hclosed : Closed gate P Q)

include hclosed

theorem course {m : Action σ α} {s last : Stage σ} {ms : List (Moment σ)} {a : α}
    (h : Course gate m s ms a last) : P s ms last := by
  refine @Course.rec σ gate
    (fun {α} _ s ms _ last _ => P s ms last)
    (fun _ dt s ms last _ => gate s.scene dt → P s ms last)
    (fun _ frame due s ms last _ => Q frame due s ms last)
    ?_ ?_ ?_ ?_ ?_ ?_ ?_ ?_ _ _ _ _ _ _ h
  · intro α a s
    exact hclosed.refl s
  · intro s
    exact hclosed.refl s
  · intro f s scheduled h
    exact hclosed.act s scheduled _ h
  · intro α β m f s middle last ms ms' a b _ _ hfirst hrest
    exact hclosed.trans s middle last ms ms' hfirst hrest
  · intro invoke dt s last ms hgate _ hframe
    exact hframe hgate
  · intro invoke dt s fired ms moved entries _ hanimate hfirings hgate
    exact hclosed.frame s fired dt ms moved entries hgate hfirings hanimate
  · intro invoke frame s
    exact hclosed.none frame s
  · intro invoke frame action rest s middle last ms ms' outcome _ _ happly hrest
    exact hclosed.more frame action rest s middle last ms ms' outcome happly hrest

theorem firings {invoke : Invoker σ} {frame : Nat} {due : List ScheduledAction}
    {s last : Stage σ} {ms : List (Moment σ)} (h : Firings gate invoke frame due s ms last) :
    Q frame due s ms last := by
  induction due generalizing s ms with
  | nil =>
    cases h
    exact hclosed.none frame _
  | cons action rest ih =>
    cases h with
    | more happly hrest => exact hclosed.more _ _ _ _ _ _ _ _ _ (hclosed.course happly) (ih hrest)

end Course.Closed

/-- A relation between a scene and what becomes of it. -/
structure Course.Relates (gate : Scene → Float → Prop) (R : Scene → Scene → Prop) : Prop where
  refl : ∀ scene, R scene scene
  trans : ∀ first second third, R first second → R second third → R first third
  act : ∀ scene scheduled next, scene.Act scheduled next → R scene next
  enterFrame : ∀ scene dt, gate scene dt → R scene (scene.enterFrame dt)
  failed : ∀ scene : Scene, R scene { scene with failures := scene.failures + 1 }
  animate : ∀ scene dt moved entries, scene.animate dt = .ok (moved, entries) → R scene moved

/-- The scenes of a course: the one that it starts with and those of its moments. -/
def visited (s : Stage σ) (ms : List (Moment σ)) : List Scene := s.scene :: ms.map Moment.scene

/-- Every scene of a course is related to every later one. -/
structure Leads (R : Scene → Scene → Prop) (s : Stage σ) (ms : List (Moment σ)) (last : Stage σ) :
    Prop where
  pairwise : (visited s ms).Pairwise R
  last : ∀ scene ∈ visited s ms, R scene last.scene

namespace Leads

variable {R : Scene → Scene → Prop} {s middle last : Stage σ} {ms ms' : List (Moment σ)}

theorem start (h : Leads R s ms last) : R s.scene last.scene := h.last _ List.mem_cons_self

theorem append (htrans : ∀ first second third, R first second → R second third → R first third)
    (h : Leads R s ms middle) (h' : Leads R middle ms' last) : Leads R s (ms ++ ms') last := by
  obtain ⟨hmiddle, hrest⟩ := List.pairwise_cons.mp h'.pairwise
  have hvisited : visited s (ms ++ ms') = visited s ms ++ ms'.map Moment.scene := by
    rw [visited, List.map_append, visited, List.cons_append]
  constructor
  · rw [hvisited]
    refine List.pairwise_append.mpr ⟨h.pairwise, hrest, fun first hfirst second hsecond => ?_⟩
    exact htrans _ _ _ (h.last first hfirst) (hmiddle second hsecond)
  · intro scene hscene
    rw [hvisited] at hscene
    rcases List.mem_append.mp hscene with hscene | hscene
    · exact htrans _ _ _ (h.last scene hscene) h'.start
    · exact h'.last scene (List.mem_cons_of_mem _ hscene)

/-- A single event. -/
theorem single (hrefl : ∀ scene, R scene scene) (event : Event) (s last : Stage σ)
    (h : R s.scene last.scene) : Leads R s [⟨event, last.world⟩] last := by
  constructor
  · exact List.pairwise_pair.mpr h
  · intro scene hscene
    rcases List.mem_cons.mp hscene with rfl | hscene
    · exact h
    · rw [List.mem_singleton.mp hscene]
      exact hrefl _

end Leads

namespace Course.Relates

variable {R : Scene → Scene → Prop} (h : Relates gate R)

include h

theorem settle (world : World σ) (action : ScheduledAction) (outcome : Except SceneError Unit) :
    R world.scene (world.settle action outcome).scene := by
  cases outcome with
  | ok value => exact h.refl _
  | error e => exact h.failed _

/-- A relation that the steps keep is kept by courses. -/
theorem closed : Closed gate (Leads (σ := σ) R) fun _ _ => Leads R where
  refl s := ⟨List.pairwise_singleton _ _, fun scene hscene =>
    List.mem_singleton.mp hscene ▸ h.refl _⟩
  act s scheduled next hact := .single h.refl _ s (s.withWorld next) (h.act _ _ _ hact)
  trans s middle last ms ms' hfirst hrest := hfirst.append h.trans hrest
  frame s fired dt ms moved entries hgate hfirings hanimate := by
    have hbegin := Leads.single h.refl (.begin s.frames s.scene.timeline.actions) s
      (s.enterFrame dt) (h.enterFrame _ _ hgate)
    have hfinish := Leads.single h.refl (.finish s.frames) fired
      (fired.withWorld (fired.world.animated moved entries)) (h.animate _ _ _ _ hanimate)
    exact hbegin.append h.trans (hfirings.append h.trans hfinish)
  none frame s := ⟨List.pairwise_singleton _ _, fun scene hscene =>
    List.mem_singleton.mp hscene ▸ h.refl _⟩
  more frame action rest s middle last ms ms' outcome happly hrest := by
    have hstart := Leads.single h.refl (.apply frame action) s s (h.refl _)
    have hsettle := Leads.single h.refl (.applied frame action outcome) middle
      (middle.withWorld (middle.world.settle action outcome)) (h.settle _ _ _)
    exact hstart.append h.trans (happly.append h.trans (hsettle.append h.trans hrest))

end Course.Relates

end

end Animatic
