import Animatic.Proofs.Motion.Progress
import Animatic.Proofs.Playback.Changes
import Animatic.Proofs.Playback.Checks

/-!
# Runs of a primitive

A primitive advances step by step. Between two steps its channels may be set, tweens may be started,
its velocity may change and it may be put elsewhere.

* `Primitive.undergoAll`: a run through such events, with the commits that it returns.
* `Primitive.advanceEach`: a run through steps alone.
* `Primitive.exists_undergoAll`: within bounds that are not negative a run comes to its end.
* `Outlasts`: a motion that is at its end after none of some steps.
-/

namespace Animatic

open Number

namespace Primitive

/-- A step: how long it takes, and the bounds in force. -/
structure Step where
  dt : Float
  bounds : Bounds

/-- The lengths of some steps. -/
def times (steps : List Step) : List Float := steps.map Step.dt

/-- Something that happens to a primitive, other than the start of a shape tween. -/
inductive Event where
  | step (step : Step)
  | set (channel : Channel) (value : Float)
  | tween (channel : Channel) (target duration : Float) (easing : Easing)
  | setVelocity (x y : Float32)
  /-- The primitive takes the place of another one. -/
  | place (transform : Transform)

/-- The length of an event that is a step. -/
def Event.length? : Event → Option Float
  | .step s => some s.dt
  | .set .. | .tween .. | .setVelocity .. | .place .. => none

/-- The lengths of the steps among some events. -/
def stepTimes (events : List Event) : List Float := events.filterMap Event.length?

/-- What becomes of a primitive by an event, and the commit of a shape tween that it completes. -/
def undergo (p : Primitive) : Event → Except Fault (Primitive × Option ShapeCommit)
  | .step step => p.advance step.dt step.bounds
  | .set channel value => .ok (p.set channel value, none)
  | .tween channel target duration easing =>
    .ok (p.startTween channel target duration easing, none)
  | .setVelocity x y => .ok ({ p with velocityX := x, velocityY := y }, none)
  | .place transform => .ok ({ p with transform }, none)

/-- What becomes of a primitive by some events, and the commits on the way. -/
def undergoAll (p : Primitive) : List Event → Except Fault (Primitive × List ShapeCommit)
  | [] => .ok (p, [])
  | event :: rest => do
    let (p, commit) ← p.undergo event
    let (p, others) ← p.undergoAll rest
    return (p, commit.toList ++ others)

/-- What becomes of a primitive by some steps. -/
def advanceEach (p : Primitive) (steps : List Step) :
    Except Fault (Primitive × List ShapeCommit) :=
  p.undergoAll (steps.map .step)

variable {p q : Primitive} {event : Event} {events : List Event} {step : Step} {steps : List Step}
  {commits : List ShapeCommit}

theorem undergoAll_cons (h : p.undergoAll (event :: events) = .ok (q, commits)) :
    ∃ next commit others, p.undergo event = .ok (next, commit) ∧
      next.undergoAll events = .ok (q, others) ∧ commits = commit.toList ++ others := by
  obtain ⟨⟨next, commit⟩, hnext, h⟩ := of_bind_eq_ok h
  obtain ⟨⟨last, others⟩, hrest, h⟩ := of_bind_eq_ok h
  cases h
  exact ⟨next, commit, others, hnext, hrest, rfl⟩

theorem advanceEach_cons (h : p.advanceEach (step :: steps) = .ok (q, commits)) :
    ∃ next commit others, p.advance step.dt step.bounds = .ok (next, commit) ∧
      next.advanceEach steps = .ok (q, others) ∧ commits = commit.toList ++ others :=
  undergoAll_cons h

theorem undergoAll_eq_ok {next : Primitive} {commit : Option ShapeCommit}
    {others : List ShapeCommit} (h : p.undergo event = .ok (next, commit))
    (hrest : next.undergoAll events = .ok (q, others)) :
    p.undergoAll (event :: events) = .ok (q, commit.toList ++ others) := by
  rw [undergoAll, h]
  change (next.undergoAll _ >>= _) = _
  rw [hrest]
  rfl

theorem advanceEach_eq_ok {next : Primitive} {commit : Option ShapeCommit}
    {others : List ShapeCommit} (h : p.advance step.dt step.bounds = .ok (next, commit))
    (hrest : next.advanceEach steps = .ok (q, others)) :
    p.advanceEach (step :: steps) = .ok (q, commit.toList ++ others) := by
  have hevent : p.undergo (.step step) = .ok (next, commit) := h
  exact undergoAll_eq_ok hevent hrest

/-- A step moves the primitive, then its tweens, then its shape tween. -/
theorem advance_eq_ok {dt : Float} {bounds : Bounds} {commit : Option ShapeCommit}
    (h : p.advance dt bounds = .ok (q, commit)) :
    ∃ moved, p.move (narrow dt) bounds = .ok moved ∧
      (moved.advanceTweens dt).advanceShape dt = (q, commit) := by
  obtain ⟨moved, hmoved, h⟩ := of_bind_eq_ok h
  exact ⟨moved, hmoved, Except.ok.inj h⟩

/-- Nothing stops a primitive within bounds that are not negative. -/
theorem exists_undergoAll (h : ∀ step, .step step ∈ events → step.bounds.Nonnegative)
    (p : Primitive) : ∃ q commits, p.undergoAll events = .ok (q, commits) := by
  induction events generalizing p with
  | nil => exact ⟨p, [], rfl⟩
  | cons event events ih =>
    have hevent : ∃ result, p.undergo event = .ok result := by
      cases event with
      | step step => exact p.exists_advance (h step List.mem_cons_self) step.dt
      | _ => exact ⟨_, rfl⟩
    obtain ⟨⟨next, commit⟩, hnext⟩ := hevent
    obtain ⟨q, others, hrest⟩ := ih (fun step hstep => h step (List.mem_cons_of_mem _ hstep)) next
    exact ⟨q, commit.toList ++ others, undergoAll_eq_ok hnext hrest⟩

theorem exists_advanceEach (h : ∀ step ∈ steps, step.bounds.Nonnegative) (p : Primitive) :
    ∃ q commits, p.advanceEach steps = .ok (q, commits) := by
  refine exists_undergoAll (fun step hstep => ?_) p
  obtain ⟨step, hmem, hevent⟩ := List.mem_map.mp hstep
  cases hevent
  exact h step hmem

end Primitive

/-! ## Elapsed time -/

/-- The elapsed time after some steps. -/
def elapsedAfter (elapsed : Float) (dts : List Float) : Float := dts.foldl (· + ·) elapsed

/-- Whether a motion is at its end after none of some steps. -/
def Outlasts (elapsed duration : Float) : List Float → Prop
  | [] => True
  | dt :: rest => ¬ AtEnd (elapsed + dt) duration ∧ Outlasts (elapsed + dt) duration rest

instance decidableOutlasts (elapsed duration : Float) :
    (dts : List Float) → Decidable (Outlasts elapsed duration dts)
  | [] => .isTrue trivial
  | dt :: rest =>
    let _ := decidableOutlasts (elapsed + dt) duration rest
    inferInstanceAs (Decidable (¬ AtEnd (elapsed + dt) duration ∧
      Outlasts (elapsed + dt) duration rest))

end Animatic
