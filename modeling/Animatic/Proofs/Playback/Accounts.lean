import Animatic.Proofs.Playback.Evaluation
import Mathlib.Data.List.Perm.Basic

/-!
# Accounts of scheduled effects

Every effect that is scheduled is applied once or still pending, also if a function that fires lets
time pass and so runs frames in the middle of a frame.

* `Accounted`: what becomes of the actions in a course.
* `Accounted.append`, `Accounted.frame`: accounts are kept step by step.
* `accounts_closed`: hence by every course.
-/

namespace Animatic

open scoped List

/-! ## What events say -/

namespace Event

/-- The actions that are scheduled. -/
def scheduled : Event → List ScheduledAction
  | act scheduled => scheduled
  | _ => []

/-- The action that an event of a frame is about. -/
def action? : Event → Option ScheduledAction
  | apply _ action | applied _ action _ => some action
  | _ => none

/-- The action whose effect is about to be applied, with its frame. -/
def begun? : Event → Option (Nat × ScheduledAction)
  | apply frame action => some (frame, action)
  | _ => none

/-- The action whose effect has been applied. -/
def applied? : Event → Option ScheduledAction
  | applied _ action _ => some action
  | _ => none

/-- The action whose effect has been applied in a given frame. -/
def appliedIn? (frame : Nat) : Event → Option ScheduledAction
  | applied other action _ => if other = frame then some action else none
  | _ => none

/-- The frame that an event belongs to. -/
def frame? : Event → Option Nat
  | act _ => none
  | begin frame _ | apply frame _ | applied frame _ _ | finish frame => some frame

/-- Whether an effect has failed. -/
def isFailure : Event → Bool
  | applied _ _ (.error _) => true
  | _ => false

end Event

variable {σ : Type}

/-- The actions that are scheduled in a course. -/
def scheduled (ms : List (Moment σ)) : List ScheduledAction := ms.flatMap (·.event.scheduled)

/-- The actions whose effects begin to be applied in a course, with their frames. -/
def begun (ms : List (Moment σ)) : List (Nat × ScheduledAction) :=
  ms.filterMap (·.event.begun?)

/-- The actions whose effects are applied in a course. -/
def applied (ms : List (Moment σ)) : List ScheduledAction := ms.filterMap (·.event.applied?)

/-- The actions whose effects are applied in one frame. -/
def appliedIn (frame : Nat) (ms : List (Moment σ)) : List ScheduledAction :=
  ms.filterMap (·.event.appliedIn? frame)

/-- The number of effects that fail in a course. -/
def failed (ms : List (Moment σ)) : Nat := ms.countP (·.event.isFailure)

/-- The pending actions of a stage. -/
abbrev Stage.pending (s : Stage σ) : List ScheduledAction := s.scene.timeline.actions

/-- Before a frame ends it has applied, in their order, the effects of just those actions that were
pending when it began and are due by the clock that it began with. -/
def Complete : List (Moment σ) → Prop
  | [] => True
  | m :: rest =>
    (∀ frame pending, m.event = .begin frame pending →
      ∃ inside finish after, rest = inside ++ finish :: after ∧ finish.event = .finish frame ∧
        appliedIn frame inside = pending.filter (·.time ≤ m.scene.clock)) ∧
    Complete rest

/-- What becomes of the actions in a course. -/
structure Accounted (s : Stage σ) (ms : List (Moment σ)) (last : Stage σ) : Prop where
  /-- What was pending or is scheduled is applied once or pending in the end. -/
  conserved : (s.pending ++ scheduled ms).Perm (applied ms ++ last.pending)
  /-- What begins to be applied is applied. -/
  ended : ((begun ms).map Prod.snd).Perm (applied ms)
  /-- Nothing is applied before its time. -/
  punctual : ∀ m ∈ ms, ∀ action, m.event.action? = some action → action.time ≤ m.scene.clock
  complete : Complete ms
  /-- The failures are counted. -/
  failures : last.scene.failures = s.scene.failures + failed ms
  frames : s.frames ≤ last.frames
  /-- The frames of a course have numbers of their own. -/
  numbered : ∀ m ∈ ms, ∀ frame, m.event.frame? = some frame → s.frames ≤ frame ∧ frame < last.frames

/-- What becomes of the actions that are due in a frame, and of those that are scheduled
meanwhile. -/
structure FiringsAccounted (frame : Nat) (due : List ScheduledAction) (s : Stage σ)
    (ms : List (Moment σ)) (last : Stage σ) : Prop where
  conserved : (due ++ s.pending ++ scheduled ms).Perm (applied ms ++ last.pending)
  ended : ((begun ms).map Prod.snd).Perm (applied ms)
  punctual : (∀ a ∈ due, a.time ≤ s.scene.clock) →
    ∀ m ∈ ms, ∀ action, m.event.action? = some action → action.time ≤ m.scene.clock
  complete : Complete ms
  failures : last.scene.failures = s.scene.failures + failed ms
  frames : s.frames ≤ last.frames
  numbered : ∀ m ∈ ms, ∀ k, m.event.frame? = some k →
    k = frame ∨ s.frames ≤ k ∧ k < last.frames
  /-- The frame applies what is due, and nothing else. -/
  fires : frame < s.frames → appliedIn frame ms = due

/-! ## Parts of courses -/

section

variable {ms ms' : List (Moment σ)}

theorem Complete.append (h : Complete ms) (h' : Complete ms') : Complete (ms ++ ms') := by
  induction ms with
  | nil => exact h'
  | cons m rest ih =>
    refine ⟨fun frame pending hbegin => ?_, ih h.2⟩
    obtain ⟨inside, finish, after, hrest, hfinish, happlied⟩ := h.1 frame pending hbegin
    refine ⟨inside, finish, after ++ ms', ?_, hfinish, happlied⟩
    change rest ++ ms' = _
    rw [hrest, List.append_assoc, List.cons_append]

/-- An event that begins no frame. -/
theorem Complete.cons {m : Moment σ} (hm : ∀ frame pending, m.event ≠ .begin frame pending)
    (h : Complete ms) : Complete (m :: ms) :=
  ⟨fun frame pending hbegin => absurd hbegin (hm frame pending), h⟩

@[simp] theorem scheduled_append : scheduled (ms ++ ms') = scheduled ms ++ scheduled ms' :=
  List.flatMap_append

@[simp] theorem begun_append : begun (ms ++ ms') = begun ms ++ begun ms' :=
  List.filterMap_append

@[simp] theorem applied_append : applied (ms ++ ms') = applied ms ++ applied ms' :=
  List.filterMap_append

@[simp] theorem appliedIn_append (frame : Nat) :
    appliedIn frame (ms ++ ms') = appliedIn frame ms ++ appliedIn frame ms' :=
  List.filterMap_append

@[simp] theorem failed_append : failed (ms ++ ms') = failed ms + failed ms' :=
  List.countP_append

@[simp] theorem scheduled_cons (m : Moment σ) :
    scheduled (m :: ms) = m.event.scheduled ++ scheduled ms := List.flatMap_cons

@[simp] theorem begun_cons (m : Moment σ) :
    begun (m :: ms) = m.event.begun?.toList ++ begun ms := by
  cases h : m.event.begun? <;> simp [begun, h]

@[simp] theorem applied_cons (m : Moment σ) :
    applied (m :: ms) = m.event.applied?.toList ++ applied ms := by
  cases h : m.event.applied? <;> simp [applied, h]

@[simp] theorem appliedIn_cons (frame : Nat) (m : Moment σ) :
    appliedIn frame (m :: ms) = (m.event.appliedIn? frame).toList ++ appliedIn frame ms := by
  cases h : m.event.appliedIn? frame <;> simp [appliedIn, h]

@[simp] theorem failed_cons (m : Moment σ) :
    failed (m :: ms) = failed ms + if m.event.isFailure then 1 else 0 := List.countP_cons

/-- A frame applies nothing where only other frames do something. -/
theorem appliedIn_eq_nil {frame : Nat} (h : ∀ m ∈ ms, m.event.frame? ≠ some frame) :
    appliedIn frame ms = [] := by
  refine List.filterMap_eq_nil_iff.mpr fun m hm => ?_
  have hother := h m hm
  cases hevent : m.event with
  | applied k action outcome =>
    rw [hevent] at hother
    exact if_neg fun heq => hother (congrArg some heq)
  | _ => rfl

end

/-! ## Courses -/

namespace Accounted

variable {s middle last : Stage σ} {ms ms' : List (Moment σ)}

theorem refl (s : Stage σ) : Accounted s [] s where
  conserved := by rw [scheduled, List.flatMap_nil, List.append_nil]; exact .refl _
  ended := .refl _
  punctual _ hm := absurd hm List.not_mem_nil
  complete := trivial
  failures := rfl
  frames := Nat.le_refl _
  numbered _ hm := absurd hm List.not_mem_nil

theorem append (h : Accounted s ms middle) (h' : Accounted middle ms' last) :
    Accounted s (ms ++ ms') last where
  conserved := by
    rw [scheduled_append, applied_append, ← List.append_assoc, List.append_assoc (applied ms)]
    refine (h.conserved.append_right _).trans ?_
    rw [List.append_assoc]
    exact h'.conserved.append_left _
  ended := by
    rw [begun_append, applied_append, List.map_append]
    exact h.ended.append h'.ended
  punctual m hm := (List.mem_append.mp hm).elim (h.punctual m) (h'.punctual m)
  complete := h.complete.append h'.complete
  failures := by rw [h'.failures, h.failures, failed_append, Nat.add_assoc]
  frames := Nat.le_trans h.frames h'.frames
  numbered m hm frame hframe := by
    have hle := h.frames
    have hle' := h'.frames
    rcases List.mem_append.mp hm with hm | hm
    · have hbounds := h.numbered m hm frame hframe
      omega
    · have hbounds := h'.numbered m hm frame hframe
      omega

theorem act {scheduled : List ScheduledAction} {next : World σ}
    (h : s.scene.Queued scheduled next.scene) :
    Accounted s [⟨.act scheduled, next⟩] (s.withWorld next) where
  conserved := by
    rw [scheduled_cons]
    exact (List.append_nil scheduled).symm ▸ h.queue.same.symm
  ended := .refl _
  punctual m hm action haction := by
    rw [List.mem_singleton.mp hm] at haction
    cases haction
  complete := Complete.cons (fun _ _ => Event.noConfusion) trivial
  failures := h.failures
  frames := Nat.le_refl _
  numbered m hm frame hframe := by
    rw [List.mem_singleton.mp hm] at hframe
    cases hframe

/-- A frame, whatever its step. -/
theorem frame {fired : Stage σ} {dt : Float} {moved : Scene} {entries : List LogEntry}
    (hs : s.scene.Standing)
    (h : FiringsAccounted s.frames (s.scene.dueWithin dt) (s.enterFrame dt) ms fired)
    (hsame : fired.scene.SameTime moved) :
    Accounted s (⟨.begin s.frames s.scene.timeline.actions, (s.enterFrame dt).world⟩ ::
      (ms ++ [⟨.finish s.frames, fired.world.animated moved entries⟩]))
      (fired.withWorld (fired.world.animated moved entries)) where
  conserved := by
    have hsplit : s.scene.dueWithin dt ++ (s.enterFrame dt).pending = s.pending :=
      List.take_append_drop _ _
    have hconserved := h.conserved
    rw [hsplit] at hconserved
    have hpending : moved.timeline.actions = fired.pending :=
      congrArg Timeline.actions hsame.timeline
    simp only [scheduled_cons, scheduled_append, applied_cons, applied_append]
    change (s.pending ++ (scheduled ms ++ [])).Perm (applied ms ++ [] ++ moved.timeline.actions)
    rwa [List.append_nil, List.append_nil, hpending]
  ended := by
    simp only [begun_cons, begun_append, applied_cons, applied_append]
    change ((begun ms ++ []).map Prod.snd).Perm (applied ms ++ [])
    rw [List.append_nil, List.append_nil]
    exact h.ended
  punctual m hm action haction := by
    rcases List.mem_cons.mp hm with rfl | hm
    · cases haction
    · rcases List.mem_append.mp hm with hm | hm
      · exact h.punctual (fun a ha => (hs.of_mem_dueWithin ha).1) m hm action haction
      · rw [List.mem_singleton.mp hm] at haction
        cases haction
  complete := by
    refine ⟨fun frame pending hbegin => ?_, h.complete.append ?_⟩
    · obtain ⟨rfl, rfl⟩ := Event.begin.inj hbegin
      refine ⟨ms, _, [], rfl, rfl, ?_⟩
      rw [h.fires (Nat.lt_succ_self _), Scene.dueWithin_eq hs]
      rfl
    · exact Complete.cons (fun _ _ => Event.noConfusion) trivial
  failures := by
    rw [failed_cons, failed_append]
    exact hsame.failures.trans h.failures
  frames := Nat.le_of_succ_le h.frames
  numbered m hm frame hframe := by
    have hframes : s.frames + 1 ≤ fired.frames := h.frames
    change s.frames ≤ frame ∧ frame < fired.frames
    rcases List.mem_cons.mp hm with rfl | hm
    · obtain rfl := Option.some.inj hframe
      omega
    · rcases List.mem_append.mp hm with hm | hm
      · have hbounds : frame = s.frames ∨ s.frames + 1 ≤ frame ∧ frame < fired.frames :=
          h.numbered m hm frame hframe
        omega
      · rw [List.mem_singleton.mp hm] at hframe
        obtain rfl := Option.some.inj hframe
        omega

end Accounted

/-! ## Firings -/

namespace FiringsAccounted

variable {s middle last : Stage σ} {ms ms' : List (Moment σ)} {frame : Nat}

theorem none (frame : Nat) (s : Stage σ) : FiringsAccounted frame [] s [] s where
  conserved := (Accounted.refl s).conserved
  ended := .refl _
  punctual _ := (Accounted.refl s).punctual
  complete := trivial
  failures := rfl
  frames := Nat.le_refl _
  numbered _ hm := absurd hm List.not_mem_nil
  fires _ := rfl

theorem more {action : ScheduledAction} {rest : List ScheduledAction}
    {outcome : Except SceneError Unit} (hadvances : s.scene.Advances middle.scene)
    (h : Accounted s ms middle)
    (hrest : FiringsAccounted frame rest
      (middle.withWorld (middle.world.settle action outcome)) ms' last) :
    FiringsAccounted frame (action :: rest) s (⟨.apply frame action, s.world⟩ ::
      (ms ++ ⟨.applied frame action outcome, middle.world.settle action outcome⟩ :: ms')) last where
  conserved := by
    have hpending : (middle.withWorld (middle.world.settle action outcome)).pending =
        middle.pending := by cases outcome <;> rfl
    have hconserved := hrest.conserved
    rw [hpending] at hconserved
    simp only [scheduled_cons, scheduled_append, applied_cons, applied_append]
    change (action :: rest ++ s.pending ++ (scheduled ms ++ scheduled ms')).Perm
      (applied ms ++ action :: applied ms' ++ last.pending)
    calc action :: rest ++ s.pending ++ (scheduled ms ++ scheduled ms')
        = action :: rest ++ (s.pending ++ scheduled ms) ++ scheduled ms' := by
          simp only [List.append_assoc]
      _ ~ action :: rest ++ (applied ms ++ middle.pending) ++ scheduled ms' :=
          (h.conserved.append_left _).append_right _
      _ = action :: (rest ++ applied ms ++ (middle.pending ++ scheduled ms')) := by
          simp only [List.append_assoc, List.cons_append]
      _ ~ action :: (applied ms ++ rest ++ (middle.pending ++ scheduled ms')) :=
          (List.perm_append_comm.append_right _).cons action
      _ = action :: (applied ms ++ (rest ++ middle.pending ++ scheduled ms')) := by
          simp only [List.append_assoc]
      _ ~ applied ms ++ action :: (rest ++ middle.pending ++ scheduled ms') :=
          List.perm_middle.symm
      _ ~ applied ms ++ action :: (applied ms' ++ last.pending) :=
          (hconserved.cons action).append_left _
      _ = applied ms ++ action :: applied ms' ++ last.pending := by
          simp only [List.append_assoc, List.cons_append]
  ended := by
    simp only [begun_cons, begun_append, applied_cons, applied_append]
    change (action :: (begun ms ++ begun ms').map Prod.snd).Perm
      (applied ms ++ action :: applied ms')
    rw [List.map_append]
    exact ((h.ended.append hrest.ended).cons action).trans List.perm_middle.symm
  punctual hdue m hm other hother := by
    have hmiddle : ∀ a ∈ action :: rest, a.time ≤ middle.scene.clock := fun a ha =>
      le_trans_time (hdue a ha) hadvances.clock
    have hsettled : (middle.world.settle action outcome).scene.clock = middle.scene.clock := by
      cases outcome <;> rfl
    rcases List.mem_cons.mp hm with rfl | hm
    · obtain rfl := Option.some.inj hother
      exact hdue _ List.mem_cons_self
    · rcases List.mem_append.mp hm with hm | hm
      · exact h.punctual m hm other hother
      · rcases List.mem_cons.mp hm with rfl | hm
        · obtain rfl := Option.some.inj hother
          exact hsettled ▸ hmiddle _ List.mem_cons_self
        · refine hrest.punctual (fun a ha => ?_) m hm other hother
          exact hsettled ▸ hmiddle a (List.mem_cons_of_mem _ ha)
  complete :=
    Complete.cons (fun _ _ => Event.noConfusion)
      (h.complete.append (Complete.cons (fun _ _ => Event.noConfusion) hrest.complete))
  failures := by
    have hsettled : (middle.world.settle action outcome).scene.failures =
        middle.scene.failures +
          if (Event.applied frame action outcome).isFailure then 1 else 0 := by
      cases outcome <;> rfl
    have hlast : last.scene.failures =
        (middle.world.settle action outcome).scene.failures + failed ms' := hrest.failures
    have htotal : failed (⟨.apply frame action, s.world⟩ ::
        (ms ++ ⟨.applied frame action outcome, middle.world.settle action outcome⟩ :: ms')) =
        failed ms + (failed ms' +
          if (Event.applied frame action outcome).isFailure then 1 else 0) := by
      rw [failed_cons, failed_append, failed_cons]
      rfl
    rw [hlast, hsettled, h.failures, htotal]
    omega
  frames := Nat.le_trans h.frames hrest.frames
  numbered m hm k hk := by
    have hle : s.frames ≤ middle.frames := h.frames
    have hle' : middle.frames ≤ last.frames := hrest.frames
    rcases List.mem_cons.mp hm with rfl | hm
    · exact .inl (Option.some.inj hk).symm
    · rcases List.mem_append.mp hm with hm | hm
      · have hbounds := h.numbered m hm k hk
        omega
      · rcases List.mem_cons.mp hm with rfl | hm
        · exact .inl (Option.some.inj hk).symm
        · have hbounds : k = frame ∨ middle.frames ≤ k ∧ k < last.frames :=
            hrest.numbered m hm k hk
          omega
  fires hframe := by
    have hnone : appliedIn frame ms = [] := appliedIn_eq_nil fun m hm hk => by
      have hbounds := (h.numbered m hm frame hk).1
      omega
    have hthis : (Event.applied frame action outcome).appliedIn? frame = some action := if_pos rfl
    rw [appliedIn_cons, appliedIn_append, appliedIn_cons, hnone, hthis,
      hrest.fires (Nat.lt_of_lt_of_le hframe h.frames)]
    rfl

end FiringsAccounted

/-- Accounts are kept by every course. -/
theorem accounts_closed : Course.RunningClosed (Accounted (σ := σ)) FiringsAccounted where
  refl := .refl
  act _ _ _ _ := .act
  trans _ _ _ _ _ := .append
  frame _ _ _ _ _ _ hs _ := .frame hs.toStanding
  none := .none
  more _ _ _ _ _ _ _ _ _ _ := .more

/-! ## Players -/

/-- Whatever a player does has a course, and what happens in its courses is what it does and is
accounted for: every effect that was ever scheduled has been applied once or is pending. -/
theorem Player.play_accounted (source : String) (settings : Settings) (steps : List Float) :
    (∀ player, (load source settings >>= fun player => steps.foldlM update player) = .ok player →
      ∃ ms last, Played (Script.parse source) settings steps ms last ∧
        last.world = player.world) ∧
    ∀ ms last, Played (Script.parse source) settings steps ms last →
      (load source settings >>= fun player => steps.foldlM update player) =
          .ok ⟨Script.parse source, last.world⟩ ∧
        Accounted (.opening settings) ms last := by
  rw [load_bind_foldlM]
  refine ⟨fun player hplay => exists_played hplay, fun ms last hplayed => ⟨hplayed.run_eq, ?_⟩⟩
  exact (hplayed.of_closed accounts_closed fun _ _ _ _ _ _ hs => .frame hs).1

end Animatic
