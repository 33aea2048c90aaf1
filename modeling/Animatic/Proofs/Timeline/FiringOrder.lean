import Animatic.Proofs.Timeline.Search
import Mathlib.Data.List.Basic

/-!
# The order in which actions fire

A timeline holds its pending actions by time, and in order of arrival at one time. Every operation
keeps that order, whichever way actions arrive.

* `InFiringOrder.unique`: there is one such order.
* `InFiringOrder.insert`, `InFiringOrder.drainDue`: it is kept.
* `InFiringOrder.insertBatch_of_zeros`: a batch keeps it unless it exchanges zeros of both signs.
-/

namespace Animatic.Timeline

open Number

/-! ## The order in which actions fire -/

/-- The pending actions in the order in which they fire: by time, those of one time in the order in
which they arrived. -/
structure InFiringOrder (pending fired : List ScheduledAction) : Prop where
  same : fired.Perm pending
  sorted : fired.Pairwise fun a b => a.time ≤ b.time
  ties : ∀ time : Float, fired.filter (·.time == time) = pending.filter (·.time == time)

variable {pending fired : List ScheduledAction}

theorem InFiringOrder.ascending (h : InFiringOrder pending fired)
    (timely : ∀ a ∈ pending, Timely a.time) : Ascending fired :=
  ⟨fun a ha => timely a (h.same.mem_iff.mp ha), h.sorted⟩

theorem InFiringOrder.ordered (h : InFiringOrder pending fired)
    (numbers : ∀ a ∈ pending, a.time.isNaN = false) : Ordered fired :=
  ⟨fun a ha => numbers a (h.same.mem_iff.mp ha), h.sorted⟩

/-- A queue in order is in the order in which it fires. -/
theorem Ordered.inFiringOrder (h : Ordered fired) : InFiringOrder fired fired :=
  ⟨.refl _, h.sorted, fun _ => rfl⟩

theorem InFiringOrder.filter (h : InFiringOrder pending fired) (p : ScheduledAction → Bool) :
    InFiringOrder (pending.filter p) (fired.filter p) where
  same := h.same.filter p
  sorted := h.sorted.filter p
  ties time := by rw [List.filter_comm, h.ties, List.filter_comm]

theorem InFiringOrder.nil : InFiringOrder [] [] := ⟨.refl _, .nil, fun _ => rfl⟩

private theorem beq_self_time {t : Float} (h : t.isNaN = false) : (t == t) = true :=
  (beq_iff_rank h h).mpr rfl

private theorem beq_of_le_time {s t : Float} (h : s ≤ t) (h' : t ≤ s) : (s == t) = true := by
  obtain ⟨hs, ht⟩ := numbers_of_le h
  rw [le_iff_rank hs ht] at h
  rw [le_iff_rank ht hs] at h'
  exact (beq_iff_rank hs ht).mpr (Int.le_antisymm h h')

/-- Times equal to one another are equally late. -/
theorem le_of_beq {s t u : Float} (hs : (s == u) = true) (ht : (t == u) = true) : s ≤ t := by
  obtain ⟨hns, hnu⟩ := numbers_of_beq hs
  obtain ⟨hnt, -⟩ := numbers_of_beq ht
  rw [beq_iff_rank hns hnu] at hs
  rw [beq_iff_rank hnt hnu] at ht
  exact (le_iff_rank hns hnt).mpr (by omega)

/-- Two queues of the same actions, with the same actions at each time, are the same. -/
private theorem eq_of_ties {l₁ l₂ : List ScheduledAction} (h₁ : Ordered l₁) (h₂ : Ordered l₂)
    (same : l₁.Perm l₂)
    (ties : ∀ t : Float, l₁.filter (·.time == t) = l₂.filter (·.time == t)) : l₁ = l₂ := by
  induction l₁ generalizing l₂ with
  | nil => exact (same.nil_eq)
  | cons a rest₁ ih =>
    obtain ⟨b, rest₂, rfl⟩ : ∃ b rest₂, l₂ = b :: rest₂ :=
      List.exists_cons_of_ne_nil fun h => by simp [h] at same
    obtain ⟨ha, hsorted₁⟩ := List.pairwise_cons.mp h₁.sorted
    obtain ⟨hb, hsorted₂⟩ := List.pairwise_cons.mp h₂.sorted
    have hta := h₁.numbers a List.mem_cons_self
    have htb := h₂.numbers b List.mem_cons_self
    have hab : a.time ≤ b.time := by
      rcases List.mem_cons.mp (same.mem_iff.mpr List.mem_cons_self) with h | h
      · rw [h]; exact le_refl_time hta
      · exact ha b h
    have hba : b.time ≤ a.time := by
      rcases List.mem_cons.mp (same.mem_iff.mp List.mem_cons_self) with h | h
      · rw [h]; exact le_refl_time htb
      · exact hb a h
    -- both heads have the least time, and the first of that time is the same in both
    have hhead := ties a.time
    simp only [List.filter_cons, beq_self_time hta, beq_of_le_time hba hab, if_true] at hhead
    obtain rfl : a = b := (List.cons.inj hhead).1
    have hrest : rest₁ = rest₂ := by
      refine ih ⟨fun c hc => h₁.numbers c (List.mem_cons_of_mem _ hc), hsorted₁⟩
        ⟨fun c hc => h₂.numbers c (List.mem_cons_of_mem _ hc), hsorted₂⟩ same.cons_inv fun t => ?_
      have ht := ties t
      rw [List.filter_cons, List.filter_cons] at ht
      split at ht
      · exact (List.cons.inj ht).2
      · exact ht
    rw [hrest]

/-- Pending actions fire in one order. -/
theorem InFiringOrder.unique_of_numbers {other : List ScheduledAction}
    (h : InFiringOrder pending fired) (numbers : ∀ a ∈ pending, a.time.isNaN = false) :
    InFiringOrder pending other ↔ other = fired := by
  refine ⟨fun h' => ?_, fun heq => heq ▸ h⟩
  exact eq_of_ties (h'.ordered numbers) (h.ordered numbers) (h'.same.trans h.same.symm)
    fun t => by rw [h'.ties, h.ties]

theorem InFiringOrder.unique {other : List ScheduledAction} (h : InFiringOrder pending fired)
    (timely : ∀ a ∈ pending, Timely a.time) : InFiringOrder pending other ↔ other = fired :=
  h.unique_of_numbers fun a ha => (timely a ha).number

/-! ## Sorting a batch in -/

/-- Whether an action may stand in front of another one when a batch is sorted in. -/
def precedes (a b : ScheduledAction) : Bool := orderKey a.time ≤ orderKey b.time

/-- Unless one action is at positive zero and another one behind it at negative zero: these are the
same time, but not in the order by which a batch is sorted in. -/
def ZerosInOrder (a b : ScheduledAction) : Prop :=
  ¬ (a.time.toBits = (0 : Float).toBits ∧ b.time.toBits = (-0.0 : Float).toBits)

theorem precedes_iff {a b : ScheduledAction} (ha : a.time.isNaN = false)
    (hb : b.time.isNaN = false) : precedes a b = true ↔ a.time ≤ b.time ∧ ZerosInOrder a b := by
  rw [le_iff_rank ha hb, ZerosInOrder, ← orderKey_le_iff]
  exact decide_eq_true_iff

theorem zerosInOrder_of_timely {actions : List ScheduledAction}
    (h : ∀ a ∈ actions, Timely a.time) : actions.Pairwise ZerosInOrder :=
  List.pairwise_of_forall_mem_list fun _ _ b hb hzeros => (h b hb).notNegativeZero hzeros.2

theorem precedes_trans (a b c : ScheduledAction) (hab : precedes a b = true)
    (hbc : precedes b c = true) : precedes a c = true :=
  decide_eq_true (UInt64.le_trans (of_decide_eq_true hab) (of_decide_eq_true hbc))

theorem precedes_total (a b : ScheduledAction) : (precedes a b || precedes b a) = true := by
  rcases UInt64.le_total (orderKey a.time) (orderKey b.time) with hle | hle
  · rw [show precedes a b = true from decide_eq_true hle, Bool.true_or]
  · rw [show precedes b a = true from decide_eq_true hle, Bool.or_true]

theorem insertBatch_eq (timeline : Timeline) (batch : List ScheduledAction) :
    (timeline.insertBatch batch).actions = (timeline.actions ++ batch).mergeSort precedes := rfl

theorem insertBatch_perm (timeline : Timeline) (batch : List ScheduledAction) :
    (timeline.insertBatch batch).actions.Perm (timeline.actions ++ batch) :=
  List.mergeSort_perm _ _

theorem pairwise_precedes_insertBatch (timeline : Timeline) (batch : List ScheduledAction) :
    (timeline.insertBatch batch).actions.Pairwise fun a b => precedes a b = true :=
  List.pairwise_mergeSort precedes_trans precedes_total _

/-- A batch is sorted in by time, whatever was there before. -/
theorem ordered_insertBatch {timeline : Timeline} {batch : List ScheduledAction}
    (numbers : ∀ a ∈ timeline.actions ++ batch, a.time.isNaN = false) :
    Ordered (timeline.insertBatch batch).actions := by
  have hnumbers : ∀ a ∈ (timeline.insertBatch batch).actions, a.time.isNaN = false := fun a ha =>
    numbers a ((insertBatch_perm timeline batch).mem_iff.mp ha)
  refine ⟨hnumbers, (pairwise_precedes_insertBatch timeline batch).imp_of_mem fun ha hb hle => ?_⟩
  exact ((precedes_iff (hnumbers _ ha) (hnumbers _ hb)).mp hle).1

/-- What is pending keeps its order when a batch comes in. -/
theorem Ascending.sublist_insertBatch {timeline : Timeline} (h : Ascending timeline.actions)
    (batch : List ScheduledAction) :
    timeline.actions.Sublist (timeline.insertBatch batch).actions := by
  rw [insertBatch_eq]
  refine List.sublist_mergeSort precedes_trans precedes_total ?_ (List.sublist_append_left _ _)
  refine (h.sorted.and (zerosInOrder_of_timely h.timely)).imp_of_mem fun ha hb hle => ?_
  exact (precedes_iff (h.ordered.numbers _ ha) (h.ordered.numbers _ hb)).mpr hle

/-- What is pending keeps its order when an action comes in. -/
theorem sublist_insert (timeline : Timeline) (action : ScheduledAction) :
    timeline.actions.Sublist (timeline.insert action).actions := by
  rw [insert]
  conv_lhs => rw [← List.take_append_drop (timeline.dueCount action.time) timeline.actions]
  exact (List.Sublist.refl _).append (List.sublist_cons_self _ _)

/-! ## Requests -/

section Requests

variable {timeline : Timeline}

/-- Actions of one time are in order already, and sorting keeps such a part of a list. -/
theorem ties_insertBatch {batch : List ScheduledAction} {time : Float}
    (numbers : ∀ a ∈ timeline.actions ++ batch, a.time.isNaN = false)
    (hzeros : ((timeline.actions ++ batch).filter (·.time == time)).Pairwise ZerosInOrder) :
    (timeline.insertBatch batch).actions.filter (·.time == time) =
      (timeline.actions ++ batch).filter (·.time == time) := by
  have hpart : ((timeline.actions ++ batch).filter (·.time == time)).Pairwise
      fun a b => precedes a b = true := by
    refine hzeros.imp_of_mem fun ha hb hzero => ?_
    obtain ⟨hma, hta⟩ := List.mem_filter.mp ha
    obtain ⟨hmb, htb⟩ := List.mem_filter.mp hb
    exact (precedes_iff (numbers _ hma) (numbers _ hmb)).mpr ⟨le_of_beq hta htb, hzero⟩
  have hperm := List.mergeSort_perm (timeline.actions ++ batch) precedes
  have hsub := (List.sublist_mergeSort precedes_trans precedes_total hpart
    List.filter_sublist).filter (·.time == time)
  simp only [List.filter_filter, Bool.and_self] at hsub
  rw [insertBatch_eq, ← hsub.eq_of_length (hperm.filter _).length_eq.symm]

/-- What is due leaves a queue in order, and nothing else does. -/
theorem Ordered.drainDue_eq (h : Ordered timeline.actions) (now : Float) :
    (timeline.drainDue now).1 = timeline.actions.filter (·.time ≤ now) ∧
      (timeline.drainDue now).2.actions = timeline.actions.filter (¬ ·.time ≤ now) := by
  obtain ⟨front, back, hsplit, hcut, hfront, hback⟩ := h.dueCount_split now
  constructor
  · rw [Timeline.drainDue, hcut, hsplit, List.take_left, List.filter_append,
      List.filter_eq_self.mpr fun a ha => decide_eq_true (hfront a ha),
      List.filter_eq_nil_iff.mpr fun a ha hle => hback a ha (of_decide_eq_true hle),
      List.append_nil]
  · rw [Timeline.drainDue, hcut, hsplit, List.drop_left, List.filter_append,
      List.filter_eq_self.mpr fun a ha => decide_eq_true (hback a ha),
      List.filter_eq_nil_iff.mpr fun a ha hlate =>
        absurd (hfront a ha) (of_decide_eq_true hlate),
      List.nil_append]

variable (h : InFiringOrder pending timeline.actions)

section

variable (numbers : ∀ a ∈ pending, a.time.isNaN = false)

include h numbers

/-- A single action fires behind those that arrived before it. -/
theorem InFiringOrder.insert {action : ScheduledAction} (hnew : action.time.isNaN = false) :
    InFiringOrder (pending ++ [action]) (timeline.insert action).actions := by
  have hordered := h.ordered numbers
  obtain ⟨front, back, hsplit, hcut, hfront, hback⟩ := hordered.dueCount_split action.time
  have hqueue : (timeline.insert action).actions = front ++ action :: back := by
    rw [Timeline.insert, hcut, hsplit, List.take_left, List.drop_left]
  have hlater : ∀ a ∈ back, action.time ≤ a.time := by
    intro a ha
    have hnumber := hordered.numbers a (hsplit ▸ List.mem_append_right _ ha)
    rw [le_iff_rank hnew hnumber]
    have := hback a ha
    rw [le_iff_rank hnumber hnew] at this
    omega
  have hsorted := hordered.sorted
  rw [hsplit, List.pairwise_append] at hsorted
  obtain ⟨hsorted₁, hsorted₂, hacross⟩ := hsorted
  rw [hqueue]
  refine ⟨?_, ?_, fun time => ?_⟩
  · rw [← List.singleton_append, ← List.append_assoc]
    exact (List.perm_append_comm.append_right back).trans
      ((List.append_assoc _ _ _ ▸ (hsplit ▸ h.same).append_left [action]).trans
        List.perm_append_comm)
  · refine List.pairwise_append.mpr ⟨hsorted₁, List.pairwise_cons.mpr ⟨hlater, hsorted₂⟩, ?_⟩
    intro a ha b hb
    rcases List.mem_cons.mp hb with rfl | hb
    · exact hfront a ha
    · exact hacross a ha b hb
  · have hties := h.ties time
    rw [hsplit, List.filter_append] at hties
    rw [List.filter_append, List.filter_append, ← hties, List.append_assoc]
    congr 1
    by_cases hsame : (action.time == time) = true
    · have hnone : back.filter (·.time == time) = [] :=
        List.filter_eq_nil_iff.mpr fun a ha hbeq => hback a ha (le_of_beq hbeq hsame)
      rw [List.filter_cons, if_pos hsame, hnone, List.nil_append, List.filter_cons, if_pos hsame,
        List.filter_nil]
    · rw [List.filter_cons, if_neg hsame, List.filter_cons, if_neg hsame, List.filter_nil,
        List.append_nil]

/-- A batch fires behind what arrived before it, in its own order, unless it exchanges zeros of
both signs. -/
theorem InFiringOrder.insertBatch_of_zeros {batch : List ScheduledAction}
    (hnew : ∀ a ∈ batch, a.time.isNaN = false)
    (hzeros : (timeline.actions ++ batch).Pairwise ZerosInOrder) :
    InFiringOrder (pending ++ batch) (timeline.insertBatch batch).actions := by
  have hall : ∀ a ∈ timeline.actions ++ batch, a.time.isNaN = false := by
    intro a ha
    rcases List.mem_append.mp ha with ha | ha
    · exact (h.ordered numbers).numbers a ha
    · exact hnew a ha
  have hsorted := ordered_insertBatch hall
  refine ⟨(insertBatch_perm timeline batch).trans (h.same.append_right batch), hsorted.sorted,
    fun time => ?_⟩
  · rw [ties_insertBatch hall (hzeros.filter _), List.filter_append, List.filter_append, h.ties]

/-- What is due is drained, in firing order, and nothing else is. -/
theorem InFiringOrder.drainDue (now : Float) :
    InFiringOrder (pending.filter (·.time ≤ now)) (timeline.drainDue now).1 ∧
      InFiringOrder (pending.filter (¬ ·.time ≤ now)) (timeline.drainDue now).2.actions := by
  obtain ⟨hdue, hleft⟩ := (h.ordered numbers).drainDue_eq now
  rw [hdue, hleft]
  exact ⟨h.filter _, h.filter _⟩

end

include h in
/-- A batch without negative zeros fires behind what arrived before it, in its own order. -/
theorem InFiringOrder.insertBatch (timely : ∀ a ∈ pending, Timely a.time)
    {batch : List ScheduledAction} (hnew : ∀ a ∈ batch, Timely a.time) :
    InFiringOrder (pending ++ batch) (timeline.insertBatch batch).actions := by
  refine h.insertBatch_of_zeros (fun a ha => (timely a ha).number) (fun a ha => (hnew a ha).number)
    (zerosInOrder_of_timely fun a ha => ?_)
  rcases List.mem_append.mp ha with ha | ha
  · exact (h.ascending timely).timely a ha
  · exact hnew a ha

end Requests

end Animatic.Timeline
