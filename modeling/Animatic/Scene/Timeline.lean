import Animatic.Number.Exact
import Animatic.Scene.Effect

/-!
# Timelines

Actions that wait for their time, in the order in which they fire: by time, and those of one time in
the order in which they were added. An action that fires leaves the timeline.
-/

namespace Animatic

/-- Pending actions in firing order. -/
structure Timeline where
  actions : List ScheduledAction

namespace Timeline

/-- No pending action. -/
def empty : Timeline := ⟨[]⟩

/-- The place behind the actions that satisfy a test, all of which stand in front of the others.
The window of `size` actions from `base` on that holds it is halved until one action is left. -/
def boundary (test : ScheduledAction → Bool) (actions : List ScheduledAction)
    (base size : Nat) : Nat :=
  if size ≤ 1 then
    if (actions[base]?).any test then base + 1 else base
  else
    let middle := base + size / 2
    boundary test actions (if (actions[middle]?).any test then middle else base) (size - size / 2)
termination_by size

/-- The number of leading actions whose time is at most `now`. -/
def dueCount (timeline : Timeline) (now : Float) : Nat :=
  boundary (·.time ≤ now) timeline.actions 0 timeline.actions.length

/-- Adds one action, behind all those whose time is not later. -/
def insert (timeline : Timeline) (action : ScheduledAction) : Timeline :=
  let place := timeline.dueCount action.time
  ⟨timeline.actions.take place ++ action :: timeline.actions.drop place⟩

/-- Adds several actions; those of one time keep their order. -/
def insertBatch (timeline : Timeline) (batch : List ScheduledAction) : Timeline :=
  ⟨(timeline.actions ++ batch).mergeSort
    fun a b => Number.orderKey a.time ≤ Number.orderKey b.time⟩

/-- The actions whose time has come, in firing order, and the timeline without them. -/
def drainDue (timeline : Timeline) (now : Float) : List ScheduledAction × Timeline :=
  let due := timeline.dueCount now
  (timeline.actions.take due, ⟨timeline.actions.drop due⟩)

/-- Drops every pending action. -/
def clear (_ : Timeline) : Timeline := empty

/-- The action that fires next. -/
def next? (timeline : Timeline) : Option ScheduledAction := timeline.actions.head?

/-- The number of pending actions. -/
def size (timeline : Timeline) : Nat := timeline.actions.length

/-- Whether no action is pending. -/
def isEmpty (timeline : Timeline) : Bool := timeline.actions.isEmpty

end Timeline

end Animatic
