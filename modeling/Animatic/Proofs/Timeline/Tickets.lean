import Animatic.Proofs.Timeline.FiringOrder
import Mathlib.Data.List.Perm.Basic

/-!
# Scheduled actions with numbers

A ticket is an action with the number of those that were scheduled before it, which tells two alike
actions apart. By its ticket an action has one place among all that are ever scheduled.

* `Ticket.Precedes`: the order of tickets.
* `InFiringOrder.exists_tickets`: a queue in firing order is a queue of tickets in order.
-/

namespace Animatic.Timeline

open Number

/-- A scheduled action with the number of the actions that were scheduled before it. -/
structure Ticket where
  number : Nat
  action : ScheduledAction

/-- The tickets of actions that are scheduled one after another, the first of them with a given
number. -/
def tickets (start : Nat) (actions : List ScheduledAction) : List Ticket :=
  (actions.zipIdx start).map fun numbered => ⟨numbered.2, numbered.1⟩

namespace Ticket

/-- The time at which an action fires. -/
abbrev time (t : Ticket) : Float := t.action.time

/-- An action stands before another one that is not earlier, and at one time before those that were
scheduled behind it. -/
structure Precedes (a b : Ticket) : Prop where
  le : a.time ≤ b.time
  ties : b.time ≤ a.time → a.number < b.number

theorem precedes_of_lt {a b : Ticket} (hle : a.time ≤ b.time) (hnumber : a.number < b.number) :
    a.Precedes b := ⟨hle, fun _ => hnumber⟩

/-- What is due stands before what is not. -/
theorem precedes_of_due {a b : Ticket} {now : Float} (hb : Timely b.time) (hdue : a.time ≤ now)
    (hlate : ¬ b.time ≤ now) : a.Precedes b := by
  obtain ⟨hnumber, hnow⟩ := numbers_of_le hdue
  rw [le_iff_rank hnumber hnow] at hdue
  rw [le_iff_rank hb.number hnow] at hlate
  constructor
  · rw [le_iff_rank hnumber hb.number]
    omega
  · rw [le_iff_rank hb.number hnumber]
    omega

end Ticket

/-! ## Tickets of a list -/

theorem map_action_tickets (start : Nat) (actions : List ScheduledAction) :
    (tickets start actions).map Ticket.action = actions := by
  rw [tickets, List.map_map]
  exact List.zipIdx_map_fst start actions

theorem tickets_append (start : Nat) (actions others : List ScheduledAction) :
    tickets start (actions ++ others) =
      tickets start actions ++ tickets (start + actions.length) others := by
  rw [tickets, List.zipIdx_append, List.map_append]
  rfl

theorem of_mem_tickets {start : Nat} {actions : List ScheduledAction} {t : Ticket}
    (h : t ∈ tickets start actions) :
    start ≤ t.number ∧ t.number < start + actions.length ∧ t.action ∈ actions := by
  obtain ⟨⟨action, number⟩, hmem, rfl⟩ := List.mem_map.mp h
  obtain ⟨hle, hlt, heq⟩ := List.mem_zipIdx hmem
  exact ⟨hle, hlt, heq ▸ List.getElem_mem _⟩

theorem pairwise_tickets (start : Nat) (actions : List ScheduledAction) :
    (tickets start actions).Pairwise fun a b => a.number < b.number := by
  induction actions generalizing start with
  | nil => exact .nil
  | cons action rest ih =>
    rw [tickets, List.zipIdx_cons, List.map_cons]
    exact List.pairwise_cons.mpr ⟨fun t ht => (of_mem_tickets ht).1, ih (start + 1)⟩

/-! ## Queues of tickets -/

/-- Whether a ticket stands before another one or is the same. -/
private def standsBefore (a b : Ticket) : Bool :=
  rank a.time < rank b.time ∨ rank a.time = rank b.time ∧ a.number ≤ b.number

private theorem pairwise_standsBefore (queue : List Ticket) :
    (queue.mergeSort standsBefore).Pairwise fun a b =>
      rank a.time < rank b.time ∨ rank a.time = rank b.time ∧ a.number ≤ b.number := by
  have htrans : ∀ a b c, standsBefore a b = true → standsBefore b c = true →
      standsBefore a c = true := by
    intro a b c hab hbc
    have hab := of_decide_eq_true hab
    have hbc := of_decide_eq_true hbc
    exact decide_eq_true (by omega)
  have htotal : ∀ a b, (standsBefore a b || standsBefore b a) = true := by
    intro a b
    rw [Bool.or_eq_true, standsBefore, standsBefore, decide_eq_true_iff, decide_eq_true_iff]
    omega
  exact (List.pairwise_mergeSort htrans htotal queue).imp of_decide_eq_true

/-- Tickets can be brought in order if those that are not in order of time are in order of their
numbers. -/
theorem exists_precedes {queue : List Ticket} (timely : ∀ t ∈ queue, Timely t.time)
    (numbered : queue.Pairwise fun a b => b.time ≤ a.time → a.number < b.number) :
    ∃ sorted : List Ticket, sorted.Perm queue ∧ sorted.Pairwise Ticket.Precedes := by
  have hperm := List.mergeSort_perm queue standsBefore
  have hdistinct : (queue.mergeSort standsBefore).Pairwise fun a b =>
      rank a.time = rank b.time → a.number ≠ b.number := by
    refine hperm.symm.pairwise (numbered.imp_of_mem fun ha hb hlt heq => ?_)
      fun h heq hnumber => h heq.symm hnumber.symm
    have hle := (le_iff_rank (timely _ hb).number (timely _ ha).number).mpr heq.ge
    exact Nat.ne_of_lt (hlt hle)
  refine ⟨_, hperm, ((pairwise_standsBefore queue).and hdistinct).imp_of_mem ?_⟩
  intro a b ha hb h
  have ha := (timely a (hperm.mem_iff.mp ha)).number
  have hb := (timely b (hperm.mem_iff.mp hb)).number
  constructor
  · rw [le_iff_rank ha hb]
    omega
  · rw [le_iff_rank hb ha]
    omega

/-- The tickets of one time are in order of their numbers. -/
private theorem pairwise_filter_time {queue : List Ticket}
    (numbered : queue.Pairwise fun a b => b.time ≤ a.time → a.number < b.number) (time : Float) :
    (queue.filter (·.time == time)).Pairwise fun a b => a.number < b.number :=
  List.pairwise_filter.mpr (numbered.imp fun hlt ha hb => hlt (le_of_beq hb ha))

/-- A queue in firing order is a queue of tickets in order. -/
theorem InFiringOrder.exists_tickets {queue : List Ticket} {fired : List ScheduledAction}
    (h : InFiringOrder (queue.map Ticket.action) fired) (timely : ∀ t ∈ queue, Timely t.time)
    (numbered : queue.Pairwise fun a b => b.time ≤ a.time → a.number < b.number) :
    ∃ sorted : List Ticket, sorted.map Ticket.action = fired ∧ sorted.Perm queue ∧
      sorted.Pairwise Ticket.Precedes := by
  obtain ⟨sorted, hperm, hsorted⟩ := exists_precedes timely numbered
  refine ⟨sorted, ?_, hperm, hsorted⟩
  have htimely : ∀ a ∈ queue.map Ticket.action, Timely a.time := by
    intro a ha
    obtain ⟨t, ht, rfl⟩ := List.mem_map.mp ha
    exact timely t ht
  refine (h.unique htimely).mp ⟨hperm.map _, List.pairwise_map.mpr (hsorted.imp (·.le)), ?_⟩
  intro time
  rw [List.filter_map, List.filter_map]
  refine congrArg _ ((hperm.filter _).eq_of_pairwise ?_
    (pairwise_filter_time (hsorted.imp (·.ties)) time) (pairwise_filter_time numbered time))
  intro a b _ _ hab hba
  omega

end Animatic.Timeline
