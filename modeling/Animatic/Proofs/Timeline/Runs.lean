import Animatic.Proofs.Timeline.FiringOrder
import Mathlib.Data.List.Perm.Basic

/-!
# Timelines as lists of arrivals

Whatever is asked of a timeline, it answers as the plain list of its pending actions in order of
arrival would.

* `Request.perform`, `run`: what a timeline does.
* `account`: what becomes of the actions, said of the plain list.
* `run_answers_arrivals`: the two agree, and every action is accounted for once.
-/

namespace Animatic.Timeline

open scoped List

/-! ## Requests -/

/-- What is asked of a timeline. -/
inductive Request where
  | insert (action : ScheduledAction)
  | insertBatch (batch : List ScheduledAction)
  | drainDue (now : Float)
  | clear

namespace Request

/-- The actions that a timeline returns, and the timeline that is left. -/
def perform (timeline : Timeline) : Request → List ScheduledAction × Timeline
  | insert action => ([], timeline.insert action)
  | insertBatch batch => ([], timeline.insertBatch batch)
  | drainDue now => timeline.drainDue now
  | clear => ([], timeline.clear)

/-- The actions that a request brings, in order of arrival. -/
def added : Request → List ScheduledAction
  | insert action => [action]
  | insertBatch batch => batch
  | _ => []

/-- The pending actions that fire on a request. -/
def due (pending : List ScheduledAction) : Request → List ScheduledAction
  | drainDue now => pending.filter (·.time ≤ now)
  | _ => []

/-- The pending actions that a request drops. -/
def dropped (pending : List ScheduledAction) : Request → List ScheduledAction
  | clear => pending
  | _ => []

/-- The actions pending after a request, in order of arrival. -/
def left (pending : List ScheduledAction) : Request → List ScheduledAction
  | drainDue now => pending.filter (¬ ·.time ≤ now)
  | clear => []
  | request => pending ++ request.added

end Request

/-! ## Runs -/

/-- The answers of a timeline to requests one after another, and the timeline that is left. -/
def run (timeline : Timeline) : List Request → List (List ScheduledAction) × Timeline
  | [] => ([], timeline)
  | request :: rest =>
    let (answer, next) := request.perform timeline
    let (answers, last) := run next rest
    (answer :: answers, last)

/-- What becomes of the actions in a run. -/
structure Account where
  /-- For each request the actions that fire on it, in order of arrival. -/
  due : List (List ScheduledAction)
  /-- The actions that are dropped. -/
  dropped : List ScheduledAction
  /-- The actions that stay pending, in order of arrival. -/
  pending : List ScheduledAction

/-- What becomes of the actions in a run, with the pending ones kept as a plain list. -/
def account (pending : List ScheduledAction) : List Request → Account
  | [] => ⟨[], [], pending⟩
  | request :: rest =>
    let later := account (request.left pending) rest
    ⟨request.due pending :: later.due, request.dropped pending ++ later.dropped, later.pending⟩

/-! ## One request -/

private theorem Request.timely_left {pending : List ScheduledAction} {request : Request}
    (timely : ∀ a ∈ pending, Timely a.time) (hnew : ∀ a ∈ request.added, Timely a.time) :
    (∀ a ∈ request.due pending, Timely a.time) ∧ ∀ a ∈ request.left pending, Timely a.time := by
  cases request with
  | insert action =>
    refine ⟨by simp [due], fun a ha => ?_⟩
    rcases List.mem_append.mp ha with ha | ha
    · exact timely a ha
    · exact hnew a ha
  | insertBatch batch =>
    refine ⟨by simp [due], fun a ha => ?_⟩
    rcases List.mem_append.mp ha with ha | ha
    · exact timely a ha
    · exact hnew a ha
  | drainDue now =>
    exact ⟨fun a ha => timely a (List.mem_of_mem_filter ha),
      fun a ha => timely a (List.mem_of_mem_filter ha)⟩
  | clear => exact ⟨by simp [due], by simp [left]⟩

/-- A request is answered as the plain list answers it. -/
theorem Request.perform_inFiringOrder {pending : List ScheduledAction} {timeline : Timeline}
    (h : InFiringOrder pending timeline.actions) (timely : ∀ a ∈ pending, Timely a.time)
    {request : Request} (hnew : ∀ a ∈ request.added, Timely a.time) :
    InFiringOrder (request.due pending) (request.perform timeline).1 ∧
      InFiringOrder (request.left pending) (request.perform timeline).2.actions := by
  cases request with
  | insert action =>
    exact ⟨.nil, h.insert (fun a ha => (timely a ha).number) (hnew action List.mem_cons_self).number⟩
  | insertBatch batch => exact ⟨.nil, h.insertBatch timely hnew⟩
  | drainDue now => exact h.drainDue (fun a ha => (timely a ha).number) now
  | clear => exact ⟨.nil, .nil⟩

private theorem Request.perm_left (pending : List ScheduledAction) (request : Request) :
    (pending ++ request.added).Perm
      (request.due pending ++ (request.dropped pending ++ request.left pending)) := by
  cases request with
  | insert action => exact .refl _
  | insertBatch batch => exact .refl _
  | drainDue now =>
    simp only [added, due, dropped, left, List.append_nil, List.nil_append, decide_not]
    exact (List.filter_append_perm _ pending).symm
  | clear => simp [added, due, dropped, left]

/-! ## Whole runs -/

/-- No action of the plain list is lost or doubled. -/
theorem account_perm (pending : List ScheduledAction) (requests : List Request) :
    (pending ++ requests.flatMap Request.added).Perm
      ((account pending requests).due.flatten ++
        ((account pending requests).dropped ++ (account pending requests).pending)) := by
  induction requests generalizing pending with
  | nil => exact .of_eq (List.append_nil _)
  | cons request rest ih =>
    rw [List.flatMap_cons]
    generalize hlater : rest.flatMap Request.added = later at ih
    have hrest := ih (request.left pending)
    simp only [account, List.flatten_cons]
    calc pending ++ (request.added ++ later)
      _ = pending ++ request.added ++ later := (List.append_assoc ..).symm
      _ ~ (request.due pending ++ (request.dropped pending ++ request.left pending) ++ later) :=
          (request.perm_left pending).append_right later
      _ = request.due pending ++ (request.dropped pending ++ (request.left pending ++ later)) := by
          simp only [List.append_assoc]
      _ ~ _ := (hrest.append_left _).append_left _
      _ ~ _ := (List.perm_append_comm_assoc ..).append_left _
      _ = _ := by simp only [List.append_assoc]

/-- Through a run the timeline stays in the firing order of the plain list, and so do its answers. -/
theorem run_inFiringOrder {pending : List ScheduledAction} {timeline : Timeline}
    {requests : List Request} (h : InFiringOrder pending timeline.actions)
    (timely : ∀ a ∈ pending, Timely a.time)
    (hnew : ∀ request ∈ requests, ∀ a ∈ request.added, Timely a.time) :
    List.Forall₂ (fun due answer => InFiringOrder due answer ∧ ∀ a ∈ due, Timely a.time)
        (account pending requests).due (run timeline requests).1 ∧
      InFiringOrder (account pending requests).pending (run timeline requests).2.actions ∧
      ∀ a ∈ (account pending requests).pending, Timely a.time := by
  induction requests generalizing pending timeline with
  | nil => exact ⟨.nil, h, timely⟩
  | cons request rest ih =>
    have hadded := hnew request List.mem_cons_self
    obtain ⟨hdue, hleft⟩ := request.perform_inFiringOrder h timely hadded
    obtain ⟨htdue, htleft⟩ := request.timely_left timely hadded
    obtain ⟨hanswers, hlast, htlast⟩ :=
      ih hleft htleft fun r hr => hnew r (List.mem_cons_of_mem _ hr)
    exact ⟨.cons ⟨hdue, htdue⟩ hanswers, hlast, htlast⟩

/-- How a timeline and its answers show the plain list of the pending actions. -/
structure Shows (account : Account) (answers : List (List ScheduledAction))
    (timeline : Timeline) : Prop where
  /-- Each answer holds what is due, in the one order in which it fires. -/
  answers : List.Forall₂ (fun due answer => ∀ fired, InFiringOrder due fired ↔ fired = answer)
    account.due answers
  /-- The queue holds what is pending, in the one order in which it fires. -/
  queue : ∀ fired, InFiringOrder account.pending fired ↔ fired = timeline.actions
  size : timeline.size = account.pending.length
  isEmpty : timeline.isEmpty = account.pending.isEmpty
  next_none : timeline.next? = none ↔ account.pending = []
  /-- The next action is the first that any drain returns for which one is due. -/
  next_drained : ∀ now, (∃ a ∈ account.pending, a.time ≤ now) →
    (timeline.drainDue now).1.head? = timeline.next?

private theorem InFiringOrder.head_drainDue {pending : List ScheduledAction} {timeline : Timeline}
    (h : InFiringOrder pending timeline.actions) (timely : ∀ a ∈ pending, Timely a.time)
    {now : Float} (hdue : ∃ a ∈ pending, a.time ≤ now) :
    (timeline.drainDue now).1.head? = timeline.next? := by
  obtain ⟨front, back, hsplit, hcut, -, hback⟩ := (h.ascending timely).ordered.dueCount_split now
  have hfront : front ≠ [] := by
    rintro rfl
    obtain ⟨a, ha, hle⟩ := hdue
    rw [List.nil_append] at hsplit
    exact hback a (hsplit ▸ h.same.mem_iff.mpr ha) hle
  rw [Timeline.drainDue, hcut, List.head?_take, if_neg (by simpa using hfront), Timeline.next?]

/-- Whatever is added, drained and dropped in any order, a timeline answers as the plain list of its
pending actions does, and every action that was added is fired once, dropped once or pending. -/
theorem run_answers_arrivals (requests : List Request)
    (timely : ∀ request ∈ requests, ∀ a ∈ request.added, Timely a.time) :
    Shows (account [] requests) (run empty requests).1 (run empty requests).2 ∧
      (requests.flatMap Request.added).Perm ((run empty requests).1.flatten ++
        ((account [] requests).dropped ++ (run empty requests).2.actions)) := by
  have hempty : InFiringOrder [] empty.actions := .nil
  obtain ⟨hanswers, hlast, htlast⟩ := run_inFiringOrder hempty (by simp) timely
  generalize (run empty requests).1 = answers at *
  generalize (run empty requests).2 = timeline at *
  have hperm := account_perm [] requests
  generalize account [] requests = account at *
  refine ⟨⟨?_, fun _ => hlast.unique htlast, hlast.same.length_eq, hlast.same.isEmpty_eq, ?_,
    fun now => hlast.head_drainDue htlast⟩, ?_⟩
  · exact hanswers.imp fun due answer ⟨h, htimely⟩ _ => h.unique htimely
  · rw [next?, List.head?_eq_none_iff, ← List.isEmpty_iff, hlast.same.isEmpty_eq, List.isEmpty_iff]
  · have hflat := List.Perm.flatten_congr (hanswers.imp fun due answer h => h.1.same.symm)
    exact hperm.trans (hflat.append (hlast.same.symm.append_left _))

/-- Two actions of one time that arrive apart, and one that arrives last and fires first. -/
def mixedRequests : List Request :=
  [.insert ⟨2, .change (.show ⟨0⟩)⟩, .insertBatch [⟨2, .change (.show ⟨1⟩)⟩, ⟨1, .change (.show ⟨2⟩)⟩],
    .drainDue 1.5, .clear]

private theorem mixedRequests_timely :
    ∀ request ∈ mixedRequests, ∀ a ∈ request.added, Timely a.time := by
  have hone : Timely 1 := ⟨by decide, by decide⟩
  have htwo : Timely 2 := ⟨by decide, by decide⟩
  simp [mixedRequests, Request.added, hone, htwo]

theorem run_answers_mixedRequests :
    (∀ request ∈ mixedRequests, ∀ a ∈ request.added, Timely a.time) ∧
      Shows (account [] mixedRequests) (run empty mixedRequests).1 (run empty mixedRequests).2 ∧
      (mixedRequests.flatMap Request.added).Perm ((run empty mixedRequests).1.flatten ++
        ((account [] mixedRequests).dropped ++ (run empty mixedRequests).2.actions)) :=
  ⟨mixedRequests_timely, run_answers_arrivals mixedRequests mixedRequests_timely⟩

end Animatic.Timeline
