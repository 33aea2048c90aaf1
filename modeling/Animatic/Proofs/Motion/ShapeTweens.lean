import Animatic.Proofs.Geometry.Centering
import Animatic.Proofs.Motion.Tweens

/-!
# The life of a shape tween

A shape tween that is started in a scene blends two reconciled outlines. Every step on the way leaves
a blend, and the step in which it ends leaves what the target was when it started.

* `ShapeTween.separators_outline`: the blends have the separators of the reconciled start.
* `Primitive.advance_lasting`, `Primitive.advance_ended`: what a step does to a shape tween.
* `Primitive.undergoAll_lasting`, `Primitive.undergoAll_ended`: what a run does to it.
* `Scene.shapeTween_lifetime`: the life of a shape tween, from its start in a scene.
-/

namespace Animatic

open Number

/-! ## Separators -/

namespace Outline

/-- Which places of an outline hold separators. -/
def separators (outline : Outline) : List Bool := outline.map Point.isSeparator

variable {start target : Outline}

theorem addressable_centered (h : Addressable start target) :
    Addressable start.centered target.centered := by
  rwa [Addressable, centered, centered, List.length_map, List.length_map]

/-- Reconciled outlines have separators at the same places. -/
theorem separators_reconcile (haddressable : Addressable start target) (hstart : AllFinite start)
    (htarget : AllFinite target) :
    separators (reconcile start target).1 = separators (reconcile start target).2 := by
  obtain ⟨left, right, heq, -, hlength, -, hjoints, hfinite⟩ := reconcile_matched start target
  obtain ⟨hseparator, -⟩ := hfinite haddressable hstart htarget
  rw [heq]
  refine List.ext_getElem ?_ fun i hi hi' => ?_
  · rw [separators, separators, List.length_map, List.length_map, hlength]
  rw [separators, List.length_map] at hi hi'
  rw [Bool.eq_iff_iff]
  simp only [separators, List.getElem_map]
  have hleft := List.getElem?_eq_getElem hi
  have hright := List.getElem?_eq_getElem hi'
  constructor <;> intro h
  · obtain ⟨-, hjoint⟩ := hjoints i (hseparator i _ (.inl hleft) h)
    rw [Option.some.inj (hright.symm.trans hjoint)]
    decide
  · obtain ⟨hjoint, -⟩ := hjoints i (hseparator i _ (.inr hright) h)
    rw [Option.some.inj (hleft.symm.trans hjoint)]
    decide

end Outline

open Outline (AllFinite AllWithin Addressable separators)

namespace OutlineBlend

variable {blend : OutlineBlend} {start target : Outline}

/-- Outlines that are equally long are blended as they are. -/
theorem ofOutlines_of_length_eq (h : start.length = target.length) :
    ofOutlines start target = ⟨start, target⟩ := by
  rw [ofOutlines, h, Nat.min_self, List.take_length, ← h, List.take_length]

theorem length_outlineAt (h : blend.start.length = blend.target.length) (t : Float32) :
    (blend.outlineAt t).length = blend.vertexCount := by
  rw [outlineAt, List.length_zipWith, ← h, Nat.min_self, vertexCount]

/-- A blend of finite outlines with separators at the same places has them there as well. -/
theorem separators_outlineAt (hstart : AllFinite blend.start) (htarget : AllFinite blend.target)
    (h : separators blend.start = separators blend.target) {t : Float32}
    (ht : IsDouble (exact32 t)) : separators (blend.outlineAt t) = separators blend.start := by
  obtain ⟨start, target⟩ := blend
  dsimp only at hstart htarget h
  rw [outlineAt]
  dsimp only
  induction start generalizing target with
  | nil => rfl
  | cons p start ih =>
    cases target with
    | nil => cases h
    | cons q target =>
      obtain ⟨hp, hstart⟩ := List.forall_mem_cons.mp hstart
      obtain ⟨hq, htarget⟩ := List.forall_mem_cons.mp htarget
      obtain ⟨hhead, hrest⟩ := List.cons.inj h
      refine List.cons_eq_cons.mpr ⟨?_, ih target hstart htarget hrest⟩
      dsimp only
      cases hseparator : p.isSeparator with
      | true =>
        rw [Bool.true_or, if_pos rfl]
        decide
      | false =>
        rw [hseparator] at hhead
        rw [← hhead, Bool.or_self, if_neg Bool.false_ne_true]
        exact blend_not_separator (hp hseparator) (hq hhead.symm) ht.1 ht.2.1 ht.2.2

end OutlineBlend

namespace ShapeTween

/-- A shape tween after some steps. -/
def laterBy (tween : ShapeTween) (dts : List Float) : ShapeTween :=
  { tween with elapsed := elapsedAfter tween.elapsed dts }

/-- Whether a shape tween is at its end after none of some steps. -/
def Lasts (tween : ShapeTween) (dts : List Float) : Prop :=
  Outlasts tween.elapsed tween.duration dts

instance (tween : ShapeTween) (dts : List Float) : Decidable (tween.Lasts dts) :=
  inferInstanceAs (Decidable (Outlasts tween.elapsed tween.duration dts))

/-- Whether a shape tween is at its end. -/
def Ends (tween : ShapeTween) : Prop := AtEnd tween.elapsed tween.duration

variable {tween : ShapeTween} {source target : Outline}

theorem isComplete_iff : tween.isComplete = true ↔ tween.Ends := by
  rw [isComplete, decide_eq_true_iff]
  exact one_le_progressAt_iff

/-- A shape tween blends the reconciled outlines. -/
theorem blend_start (source target : Outline) (duration : Float) (easing : Easing)
    (commit : ShapeCommit) :
    (start source target duration easing commit).blend =
      ⟨(Outline.reconcile source.centered target.centered).1,
        (Outline.reconcile source.centered target.centered).2⟩ :=
  OutlineBlend.ofOutlines_of_length_eq (Outline.length_reconcile _ _)

/-- The blends of a shape tween have its number of points. -/
theorem length_outline
    (hblend : tween.blend = ⟨(Outline.reconcile source.centered target.centered).1,
      (Outline.reconcile source.centered target.centered).2⟩) :
    tween.outline.length = tween.vertexCount := by
  have hlength : tween.blend.start.length = tween.blend.target.length := by
    rw [hblend]
    exact Outline.length_reconcile _ _
  exact OutlineBlend.length_outlineAt hlength _

/-- The blends of a shape tween have the separators of the reconciled start. -/
theorem separators_outline
    (hblend : tween.blend = ⟨(Outline.reconcile source.centered target.centered).1,
      (Outline.reconcile source.centered target.centered).2⟩)
    (haddressable : Addressable source target) (hsource : AllWithin (2 ^ 126) source)
    (htarget : AllWithin (2 ^ 126) target) :
    separators tween.outline =
      separators (Outline.reconcile source.centered target.centered).1 := by
  have hsource' := Outline.centered_within hsource
  have htarget' := Outline.centered_within htarget
  have haddressable' := Outline.addressable_centered haddressable
  obtain ⟨hleft, hright⟩ := Outline.finite_of_mem_reconcile haddressable' hsource' htarget'
  have hshare : IsDouble (exact32 (narrow (tween.easing.apply tween.progress))) :=
    isDouble_narrow (tween.easing.isDouble_apply (isNaN_progressAt _ _))
  have hsame := Outline.separators_reconcile haddressable' hsource'.allFinite htarget'.allFinite
  rw [outline, hblend]
  exact OutlineBlend.separators_outlineAt hleft hright hsame hshare

end ShapeTween

/-! ## Steps -/

namespace Primitive

variable {p q : Primitive} {tween : ShapeTween} {dt : Float} {bounds : Bounds}
  {commit : Option ShapeCommit}

/-- Before a step comes to the shape tween it has changed nothing of the shape. -/
theorem sameShape_of_advance (h : p.advance dt bounds = .ok (q, commit)) :
    ∃ moved, SameShape p moved ∧ moved.advanceShape dt = (q, commit) := by
  obtain ⟨moved, hmoved, hshape⟩ := advance_eq_ok h
  obtain ⟨-, hsame⟩ := move_keeps hmoved
  have htweens := (sameBody_runTweens dt moved.tweens moved).toSameShape
  exact ⟨moved.advanceTweens dt,
    hsame.trans ⟨htweens.outline, htweens.filled, htweens.shapeTween⟩, hshape⟩

/-- A step without a shape tween leaves the shape as it is. -/
theorem advance_without (hnone : p.shapeTween = none)
    (h : p.advance dt bounds = .ok (q, commit)) : SameShape p q ∧ commit = none := by
  obtain ⟨moved, hsame, h⟩ := sameShape_of_advance h
  rw [advanceShape, hsame.shapeTween.trans hnone] at h
  cases h
  exact ⟨hsame, rfl⟩

/-- A step that leaves a shape tween short of its end takes the outline further. -/
theorem advance_lasting (htween : p.shapeTween = some tween) (hends : ¬ (tween.later dt).Ends)
    (h : p.advance dt bounds = .ok (q, commit)) :
    commit = none ∧ q.shapeTween = some (tween.later dt) ∧
      q.outline = (tween.later dt).outline ∧ q.filled = p.filled := by
  obtain ⟨moved, hsame, h⟩ := sameShape_of_advance h
  rw [advanceShape, hsame.shapeTween.trans htween] at h
  dsimp only at h
  rw [if_neg (ShapeTween.isComplete_iff.not.mpr hends)] at h
  cases h
  exact ⟨rfl, rfl, rfl, hsame.filled⟩

/-- A step that brings a shape tween to its end leaves what the tween was to leave. -/
theorem advance_ended (htween : p.shapeTween = some tween) (hends : (tween.later dt).Ends)
    (h : p.advance dt bounds = .ok (q, commit)) :
    commit = some tween.commit ∧ q.shapeTween = none ∧ q.outline = tween.commit.outline ∧
      q.filled = tween.commit.filled := by
  obtain ⟨moved, hsame, h⟩ := sameShape_of_advance h
  rw [advanceShape, hsame.shapeTween.trans htween] at h
  dsimp only at h
  rw [if_pos (ShapeTween.isComplete_iff.mpr hends)] at h
  cases h
  exact ⟨rfl, rfl, rfl, rfl⟩

/-- Events that are no steps leave the shape as it is. -/
theorem sameShape_of_undergo {event : Event} (hevent : event.length? = none)
    (h : p.undergo event = .ok (q, commit)) : SameShape p q ∧ commit = none := by
  cases event with
  | step step => cases hevent
  | set channel value =>
    cases h
    exact ⟨(sameBody_set p channel value).toSameShape, rfl⟩
  | tween | setVelocity | place =>
    cases h
    exact ⟨⟨rfl, rfl, rfl⟩, rfl⟩

/-! ## Runs -/

variable {events : List Event} {commits : List ShapeCommit}

/-- A run without a shape tween leaves the shape as it is. -/
theorem undergoAll_without (hnone : p.shapeTween = none)
    (h : p.undergoAll events = .ok (q, commits)) : SameShape p q ∧ commits = [] := by
  induction events generalizing p commits with
  | nil =>
    cases h
    exact ⟨.refl _, rfl⟩
  | cons event events ih =>
    obtain ⟨next, commit, others, hevent, hrest, rfl⟩ := undergoAll_cons h
    have hsame : SameShape p next ∧ commit = none := by
      cases event with
      | step step => exact advance_without hnone hevent
      | _ => exact sameShape_of_undergo rfl hevent
    obtain ⟨hnext, rfl⟩ := hsame
    obtain ⟨hlast, rfl⟩ := ih (hnext.shapeTween.trans hnone) hrest
    exact ⟨hnext.trans hlast, rfl⟩

/-- As long as a shape tween is not at its end it stays, and nothing is committed. -/
theorem undergoAll_lasting (htween : p.shapeTween = some tween)
    (hlasts : tween.Lasts (stepTimes events)) (h : p.undergoAll events = .ok (q, commits)) :
    commits = [] ∧ q.shapeTween = some (tween.laterBy (stepTimes events)) ∧
      q.filled = p.filled ∧
      (q.outline = p.outline ∧ stepTimes events = [] ∨
        q.outline = (tween.laterBy (stepTimes events)).outline) := by
  induction events generalizing p tween commits with
  | nil =>
    cases h
    exact ⟨rfl, htween, rfl, .inl ⟨rfl, rfl⟩⟩
  | cons event events ih =>
    obtain ⟨next, commit, others, hevent, hrest, rfl⟩ := undergoAll_cons h
    cases event with
    | step step =>
      obtain ⟨hends, hlasts⟩ := hlasts
      obtain ⟨rfl, hshapeTween, houtline, hfilled⟩ := advance_lasting htween hends hevent
      have hlasts' : (tween.later step.dt).Lasts (stepTimes events) := hlasts
      obtain ⟨rfl, hlast, hkept, hblend⟩ := ih hshapeTween hlasts' hrest
      refine ⟨rfl, hlast, hkept.trans hfilled, .inr ?_⟩
      rcases hblend with ⟨hsame, hnone⟩ | hblend
      · rw [hsame, houtline]
        change _ = ((tween.later step.dt).laterBy (stepTimes events)).outline
        rw [hnone]
        rfl
      · exact hblend
    | _ =>
      obtain ⟨hsame, rfl⟩ := sameShape_of_undergo rfl hevent
      obtain ⟨rfl, hlast, hkept, hblend⟩ := ih (hsame.shapeTween.trans htween) hlasts hrest
      rw [hsame.outline] at hblend
      exact ⟨rfl, hlast, hkept.trans hsame.filled, hblend⟩

/-- Once a shape tween has been at its end, it has left its commit and nothing else. -/
theorem undergoAll_ended (htween : p.shapeTween = some tween)
    (hends : ¬ tween.Lasts (stepTimes events)) (h : p.undergoAll events = .ok (q, commits)) :
    commits = [tween.commit] ∧ q.shapeTween = none ∧ q.outline = tween.commit.outline ∧
      q.filled = tween.commit.filled := by
  induction events generalizing p tween commits with
  | nil => exact absurd trivial hends
  | cons event events ih =>
    obtain ⟨next, commit, others, hevent, hrest, rfl⟩ := undergoAll_cons h
    cases event with
    | step step =>
      by_cases hend : (tween.later step.dt).Ends
      · obtain ⟨rfl, hnone, houtline, hfilled⟩ := advance_ended htween hend hevent
        obtain ⟨hsame, rfl⟩ := undergoAll_without hnone hrest
        exact ⟨rfl, hsame.shapeTween.trans hnone, hsame.outline.trans houtline,
          hsame.filled.trans hfilled⟩
      · obtain ⟨rfl, hshapeTween, -⟩ := advance_lasting htween hend hevent
        have hends' : ¬ (tween.later step.dt).Lasts (stepTimes events) :=
          fun hlasts => hends ⟨hend, hlasts⟩
        have hended := ih hshapeTween hends' hrest
        exact hended
    | _ =>
      obtain ⟨hsame, rfl⟩ := sameShape_of_undergo rfl hevent
      exact ih (hsame.shapeTween.trans htween) hends hrest

/-- What a shape tween leaves from: a primitive whose loops lead back has them closed. -/
def departure (p : Primitive) : Outline :=
  if p.closed then p.outline.closeLoops else p.outline

/-- The shape tween of a primitive into another one. -/
def shapeTweenInto (p goal : Primitive) (duration : Float) (easing : Easing)
    (replacement : Option PrimitiveId) : ShapeTween :=
  .start p.departure goal.outline.closeLoops duration easing
    ⟨goal.outline.centered, goal.filled, replacement⟩

theorem departure_within {bound : ℚ} (h : AllWithin bound p.outline) :
    AllWithin bound p.departure := by
  rw [departure]
  split
  · exact Outline.closeLoops_within h
  · exact h

end Primitive

/-! ## Lifetimes -/

namespace Scene

open Primitive

variable {scene : Scene} {source target : PrimitiveId} {p goal : Primitive}

theorem get?_put {id : PrimitiveId} (h : scene.get? id = some p) (q : Primitive) :
    (scene.put id q).get? id = some q := by
  obtain ⟨hid, -⟩ := Array.getElem?_eq_some_iff.mp (Option.join_eq_some_iff.mp h)
  rw [get?, put, Array.getElem?_setIfInBounds_self_of_lt hid]
  rfl

theorem enact_shapeTween (hsource : scene.get? source = some p)
    (htarget : scene.get? target = some goal) (duration : Float) (easing : Easing)
    (replace : Bool) :
    ∃ entries, scene.enact (.shapeTween source target duration easing replace) =
      .ok (scene.put source { p with
        shapeTween := some (p.shapeTweenInto goal duration easing
          (if replace then some target else none)) }, entries) := by
  rw [enact, startShapeTween, require, require, htarget, hsource]
  exact ⟨_, rfl⟩

/-- A shape tween that is started takes the place of one that is running, which commits nothing any
more. Up to the step in which it is at its end, every step leaves an outline with its number of
points, which has the separators of the reconciled start if nothing is too large. That step returns
its commit, which nothing returns before or after, and leaves the centred outline and the fill of the
target as they were at the start. Within bounds that are not negative no step fails. -/
theorem shapeTween_lifetime (hsource : scene.get? source = some p)
    (htarget : scene.get? target = some goal) (duration : Float) (easing : Easing)
    (replace : Bool) :
    ∃ next entries started tween,
      scene.enact (.shapeTween source target duration easing replace) = .ok (next, entries) ∧
      next.get? source = some started ∧ started.shapeTween = some tween ∧
      tween.elapsed = 0 ∧ tween.duration = duration ∧
      tween.commit = ⟨goal.outline.centered, goal.filled, if replace then some target else none⟩ ∧
      ∀ events,
        ((∀ step, .step step ∈ events → step.bounds.Nonnegative) →
          ∃ q commits, started.undergoAll events = .ok (q, commits)) ∧
        ∀ q commits, started.undergoAll events = .ok (q, commits) →
          (tween.Lasts (stepTimes events) →
            commits = [] ∧ q.shapeTween = some (tween.laterBy (stepTimes events)) ∧
            q.filled = p.filled ∧
            (stepTimes events ≠ [] → q.outline.length = tween.vertexCount ∧
              (Addressable p.departure goal.outline.closeLoops →
                AllWithin (2 ^ 126) p.outline → AllWithin (2 ^ 126) goal.outline →
                separators q.outline = separators
                  (Outline.reconcile p.departure.centered goal.outline.closeLoops.centered).1))) ∧
          (¬ tween.Lasts (stepTimes events) →
            commits = [tween.commit] ∧ q.shapeTween = none ∧
            q.outline = goal.outline.centered ∧ q.filled = goal.filled) := by
  obtain ⟨entries, henact⟩ := enact_shapeTween hsource htarget duration easing replace
  refine ⟨_, entries, _, _, henact, get?_put hsource _, rfl, rfl, rfl, rfl, fun events => ?_⟩
  refine ⟨fun h => exists_undergoAll h _, fun q commits hrun => ⟨fun hlasts => ?_, fun hends => ?_⟩⟩
  · obtain ⟨hcommits, htween, hfilled, houtline⟩ := undergoAll_lasting rfl hlasts hrun
    refine ⟨hcommits, htween, hfilled, fun hsteps => ?_⟩
    have hblend := ShapeTween.blend_start p.departure goal.outline.closeLoops duration easing
      ⟨goal.outline.centered, goal.filled, if replace then some target else none⟩
    rw [houtline.resolve_left fun h => hsteps h.2]
    refine ⟨ShapeTween.length_outline hblend, fun haddressable hp hgoal => ?_⟩
    exact ShapeTween.separators_outline hblend haddressable (departure_within hp)
      (Outline.closeLoops_within hgoal)
  · exact undergoAll_ended rfl hends hrun

/-- A scene with one primitive, which is on its way back to itself. -/
def selfMorphing : Scene :=
  let p := polygon Outline.dotAndEdge true
  ((empty ⟨1, 1⟩).insert
    { p with shapeTween := some (p.shapeTweenInto p 2 .linear none) }).2

/-- Started anew, it blends two loops of twelve points and commits once, in the second of three
steps. -/
theorem selfMorphing_commits_once : ∃ next entries started,
    selfMorphing.enact (.shapeTween ⟨0⟩ ⟨0⟩ 1 .easeIn false) = .ok (next, entries) ∧
    next.get? ⟨0⟩ = some started ∧
    (∀ q commits, started.undergoAll [.step ⟨0.5, ⟨1, 1⟩⟩, .set .x 3] = .ok (q, commits) →
      commits = [] ∧
        separators q.outline = List.replicate 12 false ++ true :: List.replicate 12 false) ∧
    ∀ q commits, started.undergoAll [.step ⟨0.5, ⟨1, 1⟩⟩, .set .x 3, .step ⟨0.75, ⟨1, 1⟩⟩,
        .step ⟨4, ⟨1, 1⟩⟩] = .ok (q, commits) →
      commits.length = 1 ∧ q.shapeTween = none := by
  obtain ⟨next, entries, started, tween, henact, hstarted, -, helapsed, hduration, -, hlife⟩ :=
    @shapeTween_lifetime selfMorphing ⟨0⟩ ⟨0⟩ _ _ rfl rfl 1 .easeIn false
  refine ⟨next, entries, started, henact, hstarted, fun q commits hrun => ?_,
    fun q commits hrun => ?_⟩
  · have hlasts : tween.Lasts [0.5] := by
      rw [ShapeTween.Lasts, helapsed, hduration]
      decide
    obtain ⟨hcommits, -, -, houtline⟩ := ((hlife _).2 q commits hrun).1 hlasts
    obtain ⟨-, hseparators⟩ := houtline (List.cons_ne_nil _ _)
    rw [hseparators (by decide +kernel) (by decide +kernel) (by decide +kernel)]
    exact ⟨hcommits, by decide +kernel⟩
  · have hends : ¬ tween.Lasts [0.5, 0.75, 4] := by
      rw [ShapeTween.Lasts, helapsed, hduration]
      decide
    obtain ⟨hcommits, hnone, -⟩ := ((hlife _).2 q commits hrun).2 hends
    rw [hcommits]
    exact ⟨rfl, hnone⟩

end Scene

end Animatic
