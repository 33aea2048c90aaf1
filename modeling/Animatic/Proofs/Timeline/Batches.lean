import Animatic.Proofs.Timeline.Runs

/-!
# Batches and single actions

A batch is sorted in as a whole, while single actions each look for their place. Both come to the
same queue but for one case: zeros of both signs are the same time, and sorting puts those of
negative sign in front.

* `run_ordered`: the queues that requests lead to.
* `InFiringOrder.insertEach`: where actions go that are added one after another.
* `insertBatch_eq_insertEach_iff`: when a batch goes there too.
-/

namespace Animatic.Timeline

open Number

variable {timeline : Timeline} {batch : List ScheduledAction}

/-- Adds actions one after another. -/
def insertEach (timeline : Timeline) (batch : List ScheduledAction) : Timeline :=
  batch.foldl insert timeline

/-! ## Queues of numbers -/

theorem ordered_empty : Ordered empty.actions := ⟨fun _ ha => (List.not_mem_nil ha).elim, .nil⟩

/-- A request whose times are numbers keeps a queue in order, at whatever time it drains. -/
theorem Request.perform_ordered (h : Ordered timeline.actions) {request : Request}
    (hnew : ∀ a ∈ request.added, a.time.isNaN = false) :
    Ordered (request.perform timeline).2.actions := by
  cases request with
  | insert action =>
    have hnumber := hnew action List.mem_cons_self
    refine (h.inFiringOrder.insert h.numbers hnumber).ordered fun a ha => ?_
    rcases List.mem_append.mp ha with ha | ha
    · exact h.numbers a ha
    · exact hnew a ha
  | insertBatch batch =>
    refine ordered_insertBatch fun a ha => ?_
    rcases List.mem_append.mp ha with ha | ha
    · exact h.numbers a ha
    · exact hnew a ha
  | drainDue now =>
    exact ⟨fun a ha => h.numbers a (List.mem_of_mem_drop ha), h.sorted.drop⟩
  | clear => exact ordered_empty

theorem run_ordered (h : Ordered timeline.actions) {requests : List Request}
    (hnew : ∀ request ∈ requests, ∀ a ∈ request.added, a.time.isNaN = false) :
    Ordered (run timeline requests).2.actions := by
  induction requests generalizing timeline with
  | nil => exact h
  | cons request rest ih =>
    exact ih (request.perform_ordered h (hnew request List.mem_cons_self))
      fun r hr => hnew r (List.mem_cons_of_mem _ hr)

/-- Actions that are added one after another fire behind what arrived before them, in their own
order. -/
theorem InFiringOrder.insertEach {pending : List ScheduledAction}
    (h : InFiringOrder pending timeline.actions)
    (numbers : ∀ a ∈ pending ++ batch, a.time.isNaN = false) :
    InFiringOrder (pending ++ batch) (timeline.insertEach batch).actions := by
  induction batch generalizing pending timeline with
  | nil => rwa [List.append_nil]
  | cons action rest ih =>
    have hpending : ∀ a ∈ pending, a.time.isNaN = false := fun a ha =>
      numbers a (List.mem_append_left _ ha)
    have haction := numbers action (List.mem_append_right _ List.mem_cons_self)
    rw [List.append_cons] at numbers ⊢
    exact ih (h.insert hpending haction) numbers

/-! ## Zeros of both signs -/

instance (a b : ScheduledAction) : Decidable (ZerosInOrder a b) := by
  unfold ZerosInOrder
  infer_instance

private theorem beq_zero_of_bits {x : Float} (h : x.toBits = (0 : Float).toBits)
    (hx : x.isNaN = false) : (x == 0) = true := by
  refine (beq_iff_rank hx (by decide)).mpr ?_
  rw [rank, h]
  decide

private theorem beq_zero_of_negative {x : Float} (h : x.toBits = (-0.0 : Float).toBits)
    (hx : x.isNaN = false) : (x == 0) = true := by
  refine (beq_iff_rank hx (by decide)).mpr ?_
  rw [rank, h]
  decide

/-- Zeros are in order if they are among the actions at zero. -/
private theorem pairwise_zerosInOrder {actions : List ScheduledAction}
    (numbers : ∀ a ∈ actions, a.time.isNaN = false)
    (h : (actions.filter (·.time == 0)).Pairwise ZerosInOrder) :
    actions.Pairwise ZerosInOrder := by
  refine (List.pairwise_filter.mp h).imp_of_mem fun ha hb hzeros hturned => ?_
  exact hzeros (beq_zero_of_bits hturned.1 (numbers _ ha))
    (beq_zero_of_negative hturned.2 (numbers _ hb)) hturned

/-- At any other time a number has one pattern. -/
private theorem pairwise_filter_ne_zero {time : Float} (htime : (time == 0) = false)
    (actions : List ScheduledAction) (numbers : ∀ a ∈ actions, a.time.isNaN = false) :
    (actions.filter (·.time == time)).Pairwise ZerosInOrder := by
  refine List.pairwise_of_forall_mem_list fun a ha _ _ hturned => ?_
  obtain ⟨hmem, hbeq⟩ := List.mem_filter.mp ha
  have hzero := beq_zero_of_bits hturned.1 (numbers a hmem)
  obtain ⟨hnumber, hother⟩ := numbers_of_beq hbeq
  rw [beq_iff_rank hnumber hother] at hbeq
  rw [beq_iff_rank hnumber (by decide)] at hzero
  have hboth : (time == 0) = true := (beq_iff_rank hother (by decide)).mpr (hbeq ▸ hzero)
  rw [htime] at hboth
  cases hboth

/-- Two queues of the same actions in order of time that differ in the order of zeros at most. -/
structure DifferAtZeroOnly (first second : List ScheduledAction) : Prop where
  same : first.Perm second
  ordered : Ordered first ∧ Ordered second
  ties : ∀ time : Float, (time == 0) = false →
    first.filter (·.time == time) = second.filter (·.time == time)

/-- In every queue that requests with numbers lead to, a batch of numbers leaves what its actions
leave if they are added one after another, just if no action at positive zero stands in front of
one at negative zero, be they pending or new; and otherwise it differs in their order only. -/
theorem insertBatch_eq_insertEach_iff {requests : List Request}
    (hrequests : ∀ request ∈ requests, ∀ a ∈ request.added, a.time.isNaN = false)
    (hbatch : ∀ a ∈ batch, a.time.isNaN = false) :
    let reached := (run empty requests).2
    (reached.insertBatch batch = reached.insertEach batch ↔
      (reached.actions ++ batch).Pairwise ZerosInOrder) ∧
    DifferAtZeroOnly (reached.insertBatch batch).actions (reached.insertEach batch).actions := by
  intro reached
  have hordered : Ordered reached.actions := run_ordered ordered_empty hrequests
  have numbers : ∀ a ∈ reached.actions ++ batch, a.time.isNaN = false := by
    intro a ha
    rcases List.mem_append.mp ha with ha | ha
    · exact hordered.numbers a ha
    · exact hbatch a ha
  have heach := hordered.inFiringOrder.insertEach numbers
  refine ⟨⟨fun hsame => ?_, fun hzeros => ?_⟩, ?_, ?_, fun time htime => ?_⟩
  · -- in a sorted queue zeros are in order, and one after another the actions at zero stay in theirs
    have hsorted : (reached.insertEach batch).actions.Pairwise ZerosInOrder := by
      rw [← hsame]
      refine (pairwise_precedes_insertBatch reached batch).imp_of_mem fun ha hb hle => ?_
      have hnumbers := (ordered_insertBatch numbers).numbers
      exact ((precedes_iff (hnumbers _ ha) (hnumbers _ hb)).mp hle).2
    refine pairwise_zerosInOrder numbers ?_
    rw [← heach.ties]
    exact hsorted.filter _
  · have hunique := (heach.unique_of_numbers numbers).mp
      (hordered.inFiringOrder.insertBatch_of_zeros hordered.numbers hbatch hzeros)
    exact congrArg Timeline.mk hunique
  · exact (insertBatch_perm reached batch).trans heach.same.symm
  · exact ⟨ordered_insertBatch numbers, heach.ordered numbers⟩
  · rw [ties_insertBatch numbers (pairwise_filter_ne_zero htime _ numbers), heach.ties]

/-- Two actions at zero, the pending one of positive sign and the new one of negative sign. -/
def zeroActions : ScheduledAction × ScheduledAction :=
  (⟨0, .change (.show ⟨1⟩)⟩, ⟨-0.0, .change (.show ⟨2⟩)⟩)

theorem insertBatch_ne_insertEach_zeros :
    let requests := [Request.insertBatch [⟨3, .invoke ⟨⟨"f", [], [], .start⟩, []⟩⟩, zeroActions.1]]
    let reached := (run empty requests).2
    (∀ request ∈ requests, ∀ a ∈ request.added, a.time.isNaN = false) ∧
      (∀ a ∈ [zeroActions.2], a.time.isNaN = false) ∧
      reached.insertBatch [zeroActions.2] ≠ reached.insertEach [zeroActions.2] := by
  intro requests reached
  have hrequests : ∀ request ∈ requests, ∀ a ∈ request.added, a.time.isNaN = false := by
    intro request hrequest
    rw [List.mem_singleton.mp hrequest]
    decide
  have hnew : ∀ a ∈ [zeroActions.2], a.time.isNaN = false := by decide
  refine ⟨hrequests, hnew, fun hsame => ?_⟩
  have hzeros := (insertBatch_eq_insertEach_iff hrequests hnew).1.mp hsame
  have hmem : zeroActions.1 ∈ reached.actions := List.mem_mergeSort.mpr (by simp)
  exact (List.pairwise_append.mp hzeros).2.2 _ hmem _ List.mem_cons_self (by decide)

end Animatic.Timeline
