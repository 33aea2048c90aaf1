import Animatic.Proofs.Number.Order
import Animatic.Scene.Timeline

/-!
# Finding the place of a time

A queue whose times ascend splits at every time, also at one that is not a number: halving ends
behind exactly the actions that are due.

* `boundary_append`: halving finds where a test stops holding.
* `Ordered.dueCount_split`: what stands in front of that place is due, and nothing behind it is.
-/

namespace Animatic

open Number

theorem le_trans_time {a b c : Float} (hab : a ≤ b) (hbc : b ≤ c) : a ≤ c := by
  obtain ⟨ha, hb⟩ := numbers_of_le hab
  have hc := (numbers_of_le hbc).2
  rw [le_iff_rank ha hb] at hab
  rw [le_iff_rank hb hc] at hbc
  exact (le_iff_rank ha hc).mpr (hab.trans hbc)

theorem le_refl_time {a : Float} (h : a.isNaN = false) : a ≤ a :=
  (le_iff_rank h h).mpr (Int.le_refl _)

end Animatic

namespace Animatic.Timeline

/-! ## Halving -/

/-- The place stays in the window that is halved. -/
private theorem boundary_eq {test : ScheduledAction → Bool} {actions : List ScheduledAction}
    {k : Nat} (below : ∀ i a, actions[i]? = some a → (test a = true ↔ i < k)) (base size : Nat)
    (hbase : base ≤ k) (hk : k ≤ base + size) (hsize : base + size ≤ actions.length) :
    boundary test actions base size = k := by
  fun_induction boundary test actions base size with
  | case1 base size hle htest =>
    obtain ⟨a, ha, hta⟩ := (Option.any_eq_true _ _).mp htest
    have hlt := (below base a ha).mp hta
    omega
  | case2 base size hle htest =>
    -- an empty window leaves nothing to ask
    rcases Nat.lt_or_ge base actions.length with h | h
    · have hget : actions[base]? = some actions[base] := List.getElem?_eq_getElem h
      have hnot : ¬ base < k := fun hlt => htest (by
        rw [hget, Option.any_some]
        exact (below base _ hget).mpr hlt)
      omega
    · omega
  | case3 base size hgt middle ih =>
    have hmiddle : middle < actions.length := by omega
    have hget : actions[middle]? = some actions[middle] := List.getElem?_eq_getElem hmiddle
    have hiff := below middle _ hget
    rw [hget, Option.any_some] at ih ⊢
    by_cases htest : test actions[middle] = true
    · have hlt := hiff.mp htest
      rw [dif_pos htest] at ih
      rw [if_pos htest]
      exact ih (by omega) (by omega) (by omega)
    · have hge : ¬ middle < k := fun h => htest (hiff.mpr h)
      rw [dif_neg htest] at ih
      rw [if_neg htest]
      exact ih (by omega) (by omega) (by omega)

/-- Halving finds where a test stops holding. -/
theorem boundary_append {test : ScheduledAction → Bool} {front back : List ScheduledAction}
    (hfront : ∀ a ∈ front, test a = true) (hback : ∀ a ∈ back, ¬ test a = true) :
    boundary test (front ++ back) 0 (front ++ back).length = front.length := by
  refine boundary_eq (fun i a h => ?_) 0 _ (Nat.zero_le _) ?_ ?_
  · rcases Nat.lt_or_ge i front.length with hi | hi
    · rw [List.getElem?_append_left hi] at h
      exact ⟨fun _ => hi, fun _ => hfront a (List.mem_of_getElem? h)⟩
    · rw [List.getElem?_append_right hi] at h
      exact ⟨fun ht => absurd ht (hback a (List.mem_of_getElem? h)), fun hlt => by omega⟩
  · rw [List.length_append]
    omega
  · omega

/-! ## Queues in time order -/

/-- A time with a place of its own in the order: a number that is not negative zero. -/
structure Timely (time : Float) : Prop where
  number : time.isNaN = false
  notNegativeZero : time.toBits ≠ (-0.0 : Float).toBits

/-- A queue whose times are numbers and do not descend. -/
structure Ordered (actions : List ScheduledAction) : Prop where
  numbers : ∀ a ∈ actions, a.time.isNaN = false
  sorted : actions.Pairwise fun a b => a.time ≤ b.time

/-- A queue whose times ascend, each with a place of its own. -/
structure Ascending (actions : List ScheduledAction) : Prop where
  timely : ∀ a ∈ actions, Timely a.time
  sorted : actions.Pairwise fun a b => a.time ≤ b.time

theorem Ascending.ordered {actions : List ScheduledAction} (h : Ascending actions) :
    Ordered actions := ⟨fun a ha => (h.timely a ha).number, h.sorted⟩

/-- A queue in time order splits into what is due and what is not. -/
private theorem Ordered.split {actions : List ScheduledAction} (h : Ordered actions)
    (now : Float) :
    ∃ front back, actions = front ++ back ∧
      (∀ a ∈ front, a.time ≤ now) ∧ ∀ a ∈ back, ¬ a.time ≤ now := by
  induction actions with
  | nil => exact ⟨[], [], rfl, by simp, by simp⟩
  | cons first rest ih =>
    obtain ⟨hfirst, hsorted⟩ := List.pairwise_cons.mp h.sorted
    have hrest : ∀ a ∈ rest, a.time.isNaN = false := fun a ha =>
      h.numbers a (List.mem_cons_of_mem _ ha)
    by_cases hdue : first.time ≤ now
    · obtain ⟨front, back, hsplit, hfront, hback⟩ := ih ⟨hrest, hsorted⟩
      refine ⟨first :: front, back, by rw [hsplit, List.cons_append], ?_, hback⟩
      intro a ha
      rcases List.mem_cons.mp ha with rfl | ha
      · exact hdue
      · exact hfront a ha
    · refine ⟨[], first :: rest, rfl, by simp, ?_⟩
      intro a ha hle
      rcases List.mem_cons.mp ha with rfl | ha
      · exact hdue hle
      · exact hdue (le_trans_time (hfirst a ha) hle)

/-- A queue in time order is cut between what is due and what is not. -/
theorem Ordered.dueCount_split {actions : List ScheduledAction} (h : Ordered actions)
    (now : Float) :
    ∃ front back, actions = front ++ back ∧ (Timeline.mk actions).dueCount now = front.length ∧
      (∀ a ∈ front, a.time ≤ now) ∧ ∀ a ∈ back, ¬ a.time ≤ now := by
  obtain ⟨front, back, rfl, hfront, hback⟩ := h.split now
  refine ⟨front, back, rfl, ?_, hfront, hback⟩
  exact boundary_append (fun a ha => decide_eq_true (hfront a ha))
    fun a ha hle => hback a ha (of_decide_eq_true hle)

end Animatic.Timeline
