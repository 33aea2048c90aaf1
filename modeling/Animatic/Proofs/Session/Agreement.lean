import Animatic.Session.Basic

/-!
# Computations that agree

Two computations on a session agree under a condition on its bindings and its call depth if they do
the same wherever the condition holds, and the condition holds again when they end. One that agrees
with itself keeps the condition.

* `Agree.bind` and its companions build up agreement along a computation.
* `agree_update`, `agree_advanceClock`: a frame of playback agrees if the calls that it fires do.
-/

namespace Animatic

variable {α β : Type}

/-- What is said of the bindings and the call depth of a session. -/
abbrev Condition := Scopes → Nat → Prop

/-- Whether a condition holds of the session of a world. -/
def Condition.Holds (I : Condition) (world : World Session) : Prop :=
  I world.host.scopes world.host.depth

/-- Two computations that do the same wherever a condition holds, and that keep it. -/
def Agree (I : Condition) (m m' : Play α) : Prop :=
  ∀ world, I.Holds world → m.run world = m'.run world ∧
    ∀ a next, m.run world = .ok (a, next) → I.Holds next

/-- A computation that keeps a condition. -/
abbrev Keeps (I : Condition) (m : Play α) : Prop := Agree I m m

variable {I : Condition} {m m' : Play α} {f f' : α → Play β}

/-! ## Composition -/

theorem keeps_pure (a : α) : Keeps I (pure a : Play α) := by
  refine fun world hworld => ⟨rfl, fun b next h => ?_⟩
  obtain ⟨-, rfl⟩ := Prod.mk.inj (Except.ok.inj h)
  exact hworld

/-- What a computation in two steps gives comes from its steps. -/
theorem run_bind_eq_ok {world next : World Session} {b : β}
    (h : (m >>= f).run world = .ok (b, next)) :
    ∃ a middle, m.run world = .ok (a, middle) ∧ (f a).run middle = .ok (b, next) := by
  rw [StateT.run_bind] at h
  cases hm : m.run world with
  | error e => rw [hm] at h; cases h
  | ok result => rw [hm] at h; exact ⟨result.1, result.2, rfl, h⟩

theorem Agree.bind (hm : Agree I m m') (hf : ∀ a, Agree I (f a) (f' a)) :
    Agree I (m >>= f) (m' >>= f') := by
  intro world hworld
  obtain ⟨hsame, hkeep⟩ := hm world hworld
  refine ⟨?_, fun b next h => ?_⟩
  · rw [StateT.run_bind, StateT.run_bind, ← hsame]
    cases hrun : m.run world with
    | error e => rfl
    | ok result => exact (hf result.1 result.2 (hkeep _ _ hrun)).1
  · obtain ⟨a, middle, hfirst, hsecond⟩ := run_bind_eq_ok h
    exact (hf a middle (hkeep a middle hfirst)).2 b next hsecond

theorem Agree.map (hm : Agree I m m') (g : α → β) : Agree I (g <$> m) (g <$> m') := by
  rw [map_eq_pure_bind, map_eq_pure_bind]
  exact hm.bind fun a => keeps_pure (g a)

/-! ## Steps -/

theorem keeps_get : Keeps I (get : Play (World Session)) := by
  refine fun world hworld => ⟨rfl, fun a next h => ?_⟩
  obtain ⟨-, rfl⟩ := Prod.mk.inj (Except.ok.inj h)
  exact hworld

theorem keeps_modify {g : World Session → World Session}
    (hg : ∀ world, I.Holds world → I.Holds (g world)) : Keeps I (modify g : Play PUnit) := by
  refine fun world hworld => ⟨rfl, fun a next h => ?_⟩
  obtain ⟨-, rfl⟩ := Prod.mk.inj (Except.ok.inj h)
  exact hg world hworld

theorem keeps_lift (result : Except Fault α) : Keeps I (liftM result : Play α) := by
  refine fun world hworld => ⟨rfl, fun a next h => ?_⟩
  cases result with
  | error e => cases h
  | ok b =>
    obtain ⟨-, rfl⟩ := Prod.mk.inj (Except.ok.inj h)
    exact hworld

open Playback Play

theorem keeps_log (entries : List LogEntry) : Keeps I (log entries : Play Unit) :=
  keeps_modify fun _ h => h

theorem keeps_logOne (level : LogLevel) (message : String) :
    Keeps I (logOne level message : Play Unit) :=
  keeps_modify fun _ h => h

theorem keeps_changeScene (g : Scene → Scene) : Keeps I (changeScene g : Play Unit) :=
  keeps_modify fun _ h => h

theorem keeps_scene : Keeps I (scene : Play Scene) := keeps_get.bind fun _ => keeps_pure _

theorem keeps_session : Keeps I session := keeps_get.bind fun _ => keeps_pure _

theorem keeps_changeSession {g : Session → Session}
    (hg : ∀ s : Session, I s.scopes s.depth → I (g s).scopes (g s).depth) :
    Keeps I (changeSession g) :=
  keeps_modify fun world h => hg world.host h

theorem keeps_print (line : String) : Keeps I (print line) :=
  Agree.bind (keeps_logOne _ _) fun _ => keeps_changeSession fun _ h => h

theorem keeps_miss (what : String) : Keeps I (miss what) :=
  Agree.bind (keeps_changeSession fun _ h => h) fun _ =>
    Agree.bind (keeps_logOne _ _) fun _ => keeps_pure _

/-! ## Frames of playback -/

theorem keeps_enact (change : Change) : Keeps I (enact change : Play _) := by
  refine keeps_scene.bind fun scene => ?_
  split
  · exact keeps_pure _
  · exact (keeps_changeScene _).bind fun _ => (keeps_log _).bind fun _ => keeps_pure _

section

variable {invoke invoke' : Invoker Session} (h : ∀ call, Agree I (invoke call) (invoke' call))

include h

theorem agree_apply (effect : Effect) : Agree I (apply invoke effect) (apply invoke' effect) := by
  cases effect with
  | change change => exact keeps_enact change
  | invoke call => exact h call

theorem agree_fire (action : ScheduledAction) :
    Agree I (fire invoke action) (fire invoke' action) := by
  refine (agree_apply h action.effect).bind fun result => ?_
  cases result with
  | ok value => exact keeps_pure _
  | error e => exact (keeps_changeScene _).bind fun _ => keeps_logOne _ _

theorem agree_fireAll (actions : List ScheduledAction) :
    Agree I (fireAll invoke actions) (fireAll invoke' actions) := by
  induction actions with
  | nil => exact keeps_pure _
  | cons action rest ih => exact (agree_fire h action).bind fun _ => ih

theorem agree_update (dt : Float) :
    Agree I (Playback.update invoke dt) (Playback.update invoke' dt) := by
  unfold Playback.update
  refine (keeps_changeScene _).bind fun _ => keeps_scene.bind fun _ => keeps_scene.bind fun _ => ?_
  refine (keeps_changeScene _).bind fun _ => (agree_fireAll h _).bind fun _ => ?_
  refine keeps_scene.bind fun _ => (keeps_lift _).bind fun _ => ?_
  exact (keeps_changeScene _).bind fun _ => keeps_log _

theorem agree_advanceClock (seconds : Float) :
    Agree I (advanceClock invoke seconds) (advanceClock invoke' seconds) := by
  refine keeps_scene.bind fun scene => ?_
  split
  · exact keeps_pure _
  · exact (agree_update h _).bind fun _ => keeps_pure _

end

end Animatic
