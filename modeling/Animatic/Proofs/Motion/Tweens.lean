import Animatic.Proofs.Motion.Curves
import Animatic.Proofs.Motion.Runs

/-!
# The life of a tween

A step takes every tween further and drops those that are at their end by then. What the last tween
of a channel sets is what the step leaves in the channel.

* `survivors`, `outliving`: the tweens that are left by a step and by a run.
* `Primitive.Left`: what a step leaves of a primitive.
* `LandsOn`: how a channel stands to the target of a tween that has ended.
* `Primitive.tween_lifetime`: when a tween ends, and what its end does.
-/

namespace Animatic

open Number
open Float.Model (UnpackedFloat)
open Float.Model.UnpackedFloat

variable {t : Tween} {tweens before behind : List Tween} {dt : Float} {dts : List Float}
  {channel : Channel}

/-! ## Tweens in time -/

namespace Tween

/-- A tween after some steps. -/
def laterBy (t : Tween) (dts : List Float) : Tween :=
  { t with elapsed := elapsedAfter t.elapsed dts }

/-- Whether a tween is at its end after none of some steps. -/
def Lasts (t : Tween) (dts : List Float) : Prop := Outlasts t.elapsed t.duration dts

instance (t : Tween) (dts : List Float) : Decidable (t.Lasts dts) :=
  inferInstanceAs (Decidable (Outlasts t.elapsed t.duration dts))

/-- Whether a tween is at its end. -/
def Ends (t : Tween) : Prop := AtEnd t.elapsed t.duration

instance (t : Tween) : Decidable t.Ends := inferInstanceAs (Decidable (AtEnd _ _))

theorem isComplete_iff : t.isComplete = true ↔ t.Ends := by
  rw [isComplete, decide_eq_true_iff]
  exact one_le_progressAt_iff

end Tween

/-- The tweens that a step leaves. -/
def survivors (dt : Float) (tweens : List Tween) : List Tween :=
  (tweens.map (·.later dt)).filter fun t => ¬ t.Ends

/-- The tweens that some steps leave. -/
def outliving (dts : List Float) (tweens : List Tween) : List Tween :=
  (tweens.filter fun t => t.Lasts dts).map (·.laterBy dts)

theorem outliving_nil (tweens : List Tween) : outliving [] tweens = tweens := by
  have hall : tweens.filter (fun t => t.Lasts []) = tweens :=
    List.filter_eq_self.mpr fun _ _ => decide_eq_true trivial
  rw [outliving, hall]
  exact List.map_id tweens

theorem outliving_cons (dt : Float) (dts : List Float) (tweens : List Tween) :
    outliving (dt :: dts) tweens = outliving dts (survivors dt tweens) := by
  rw [outliving, outliving, survivors, List.filter_map, List.filter_map, List.filter_filter,
    List.map_map]
  have hlasts (t : Tween) : decide (t.Lasts (dt :: dts)) =
      (decide ((t.later dt).Lasts dts) && decide ¬ (t.later dt).Ends) := by
    rw [← Bool.decide_and, decide_eq_decide]
    exact and_comm
  rw [List.filter_congr fun t _ => hlasts t]
  rfl

theorem outliving_of_lasts (h : t.Lasts dts) (tweens : List Tween) :
    outliving dts (t :: tweens) = t.laterBy dts :: outliving dts tweens := by
  rw [outliving, List.filter_cons_of_pos (by simpa using h)]
  rfl

theorem outliving_of_not_lasts (h : ¬ t.Lasts dts) (tweens : List Tween) :
    outliving dts (t :: tweens) = outliving dts tweens := by
  rw [outliving, List.filter_cons_of_neg (by simpa using h)]
  rfl

theorem outliving_append (dts : List Float) (before behind : List Tween) :
    outliving dts (before ++ behind) = outliving dts before ++ outliving dts behind := by
  rw [outliving, List.filter_append, List.map_append]
  rfl

/-! ## Channels -/

namespace Primitive

variable {p q : Primitive}

@[simp]
theorem get_set (p : Primitive) (channel : Channel) (x : Float) :
    (p.set channel x).get channel = widen (narrow x) := by
  cases channel <;> rfl

theorem get_set_of_ne {channel other : Channel} (h : channel ≠ other) (p : Primitive) (x : Float) :
    (p.set channel x).get other = p.get other := by
  cases channel <;> cases other <;> first | rfl | exact absurd rfl h

/-- What only shape tweens touch. -/
structure SameShape (p q : Primitive) : Prop where
  outline : q.outline = p.outline
  filled : q.filled = p.filled
  shapeTween : q.shapeTween = p.shapeTween

theorem SameShape.refl (p : Primitive) : SameShape p p := ⟨rfl, rfl, rfl⟩

theorem SameShape.trans {r : Primitive} (h : SameShape p q) (h' : SameShape q r) : SameShape p r :=
  ⟨h'.outline.trans h.outline, h'.filled.trans h.filled, h'.shapeTween.trans h.shapeTween⟩

/-- What tweens do not touch. -/
structure SameBody (p q : Primitive) : Prop extends SameShape p q where
  velocityX : q.velocityX = p.velocityX
  velocityY : q.velocityY = p.velocityY

theorem SameBody.refl (p : Primitive) : SameBody p p := ⟨.refl p, rfl, rfl⟩

theorem SameBody.trans {r : Primitive} (h : SameBody p q) (h' : SameBody q r) : SameBody p r :=
  ⟨h.toSameShape.trans h'.toSameShape, h'.velocityX.trans h.velocityX,
    h'.velocityY.trans h.velocityY⟩

theorem sameBody_set (p : Primitive) (channel : Channel) (x : Float) :
    SameBody p (p.set channel x) := by
  cases channel <;> exact ⟨⟨rfl, rfl, rfl⟩, rfl, rfl⟩

/-! ## The tweens of one step -/

theorem runTweens_fst (dt : Float) (tweens : List Tween) (p : Primitive) :
    (runTweens dt tweens p).1 = survivors dt tweens := by
  induction tweens generalizing p with
  | nil => rfl
  | cons t rest ih =>
    rw [runTweens, survivors, List.map_cons]
    by_cases hend : (t.later dt).Ends
    · rw [List.filter_cons_of_neg (by simpa using hend)]
      simp only [Tween.isComplete_iff.mpr hend, if_true]
      exact ih _
    · rw [List.filter_cons_of_pos (by simpa using hend)]
      simp only [Tween.isComplete_iff, if_neg hend]
      exact congrArg _ (ih _)

theorem sameBody_runTweens (dt : Float) (tweens : List Tween) (p : Primitive) :
    SameBody p (runTweens dt tweens p).2 := by
  induction tweens generalizing p with
  | nil => exact .refl p
  | cons t rest ih => exact (sameBody_set p _ _).trans (ih _)

theorem get_runTweens_of_undriven (h : ∀ t ∈ tweens, t.channel ≠ channel) (dt : Float)
    (p : Primitive) : (runTweens dt tweens p).2.get channel = p.get channel := by
  induction tweens generalizing p with
  | nil => rfl
  | cons t rest ih =>
    rw [List.forall_mem_cons] at h
    exact (ih h.2 _).trans (get_set_of_ne h.1 p _)

/-- The last tween of a channel has the last word. -/
theorem get_runTweens (h : ∀ u ∈ behind, u.channel ≠ t.channel) (dt : Float) (p : Primitive) :
    (runTweens dt (before ++ t :: behind) p).2.get t.channel =
      widen (narrow ((t.later dt).valueAt (t.later dt).progress)) := by
  induction before generalizing p with
  | nil => exact (get_runTweens_of_undriven h dt _).trans (get_set p _ _)
  | cons u rest ih => exact ih _

/-! ## One step -/

/-- What a velocity does not touch. -/
theorem move_keeps {step : Float32} {bounds : Bounds} (h : p.move step bounds = .ok q) :
    q.tweens = p.tweens ∧ SameShape p q := by
  rw [move] at h
  split at h
  · cases h
    exact ⟨rfl, .refl p⟩
  · obtain ⟨⟨x, velocityX⟩, -, h⟩ := of_bind_eq_ok h
    obtain ⟨⟨y, velocityY⟩, -, h⟩ := of_bind_eq_ok h
    cases h
    exact ⟨rfl, rfl, rfl, rfl⟩

/-- Shape tweens touch neither tweens nor channels nor the velocity. -/
theorem advanceShape_keeps {commit : Option ShapeCommit} (h : p.advanceShape dt = (q, commit)) :
    q.tweens = p.tweens ∧ (∀ channel, q.get channel = p.get channel) ∧
      q.velocityX = p.velocityX ∧ q.velocityY = p.velocityY := by
  rw [advanceShape] at h
  split at h
  · cases h
    exact ⟨rfl, fun _ => rfl, rfl, rfl⟩
  · dsimp only at h
    split at h <;> cases h <;> exact ⟨rfl, fun channel => by cases channel <;> rfl, rfl, rfl⟩

theorem get_advanceTweens (p : Primitive) (dt : Float) (channel : Channel) :
    (p.advanceTweens dt).get channel = (runTweens dt p.tweens p).2.get channel := by
  cases channel <;> rfl

section

variable {bounds : Bounds} {commit : Option ShapeCommit}
  (h : p.advance dt bounds = .ok (q, commit))

include h

/-- The tweens that a step leaves are those that are not at their end, in their order. -/
theorem tweens_advance : q.tweens = survivors dt p.tweens := by
  obtain ⟨moved, hmoved, hshape⟩ := advance_eq_ok h
  obtain ⟨htweens, -⟩ := move_keeps hmoved
  obtain ⟨hkept, -⟩ := advanceShape_keeps hshape
  rw [hkept, ← htweens]
  exact runTweens_fst dt moved.tweens moved

/-- What a step leaves in a channel that is driven. -/
theorem get_advance (htweens : p.tweens = before ++ t :: behind)
    (hlast : ∀ u ∈ behind, u.channel ≠ t.channel) :
    q.get t.channel = widen (narrow ((t.later dt).valueAt (t.later dt).progress)) := by
  obtain ⟨moved, hmoved, hshape⟩ := advance_eq_ok h
  obtain ⟨hkept, -⟩ := move_keeps hmoved
  obtain ⟨-, hget, -⟩ := advanceShape_keeps hshape
  rw [hget, get_advanceTweens, hkept, htweens]
  exact get_runTweens hlast dt moved

end

/-- The tweens that are left by a run. -/
theorem tweens_advanceEach {steps : List Step} {commits : List ShapeCommit}
    (h : p.advanceEach steps = .ok (q, commits)) :
    q.tweens = outliving (times steps) p.tweens := by
  induction steps generalizing p commits with
  | nil =>
    cases h
    exact (outliving_nil _).symm
  | cons step steps ih =>
    obtain ⟨next, commit, others, hstep, hrest, -⟩ := advanceEach_cons h
    rw [ih hrest, tweens_advance hstep, times, times, List.map_cons, outliving_cons]

end Primitive

/-! ## Landing -/

/-- Whether a channel has come to a target. As a number it is the target in any case; it is exactly
the target unless that is negative zero, which may be reached as the other zero. -/
structure LandsOn (x target : Float) : Prop where
  equal : (x == widen (narrow target)) = true
  exactly : target.toBits ≠ (-0.0 : Float).toBits → x = widen (narrow target)

private theorem isNaN_nearest (format : Float.Model.Format) (f : UnpackedFloat) :
    (nearest format f).isNaN = f.isNaN := by
  cases f with
  | finite s m e hm =>
    have hrounds := rounds_round format hm e s
    cases h : UnpackedFloat.round format s m e with
    | notANumber => exact absurd hrounds.isFinite (by rw [h]; nofun)
    | zero | infinity | finite => rw [nearest, h]; rfl
  | zero | infinity | notANumber => rfl

private theorem isNaN_widen_narrow (x : Float) : (widen (narrow x)).isNaN = x.isNaN := by
  have hnarrow : exact32 (narrow x) =
      unpack .binary32 (pack .binary32 (nearest .binary32 (exact x))) := rfl
  have hwiden : exact (widen (narrow x)) =
      unpack .binary64 (pack .binary64 (nearest .binary64 (exact32 (narrow x)))) := rfl
  rw [← isNaN_exact, hwiden, isNaN_unpack_pack, isNaN_nearest, hnarrow, isNaN_unpack_pack,
    isNaN_nearest, isNaN_exact]

/-- The value of a tween at its end. -/
theorem Tween.landsOn (hstart : (exact t.start).isFinite = true)
    (htarget : (exact t.target).isFinite = true) :
    LandsOn (widen (narrow (t.valueAt 1))) t.target := by
  have hvalue : t.valueAt 1 = t.start * (1 - 1) + t.target * 1 := by
    rw [valueAt, Easing.apply_one]
  have hnumber : (widen (narrow t.target)).isNaN = false := by
    rw [isNaN_widen_narrow]
    exact isNaN_eq_false_of_isFinite htarget
  have hnarrow {x y : Float} (h : exact x = exact y) : narrow x = narrow y := by
    rw [narrow, narrow, h]
  rcases exact_blend_one hstart htarget with h | ⟨hzero, s, h⟩
  · rw [hvalue, hnarrow h]
    exact ⟨(beq_iff_rank hnumber hnumber).mpr rfl, fun _ => rfl⟩
  · refine ⟨?_, fun hne => absurd (toBits_of_exact hzero) hne⟩
    rw [hvalue, narrow, narrow, h, hzero]
    cases s <;> decide

/-! ## Lifetimes -/

namespace Primitive

variable {p q : Primitive} {steps : List Step} {commits : List ShapeCommit}

/-- A tween stays as long as it is not at its end, and goes in the step in which it first is, whatever
other tweens there are; those stay or go in the same way, and keep their order. The step in which it
goes leaves its channel at its target if no other tween drives it. Within bounds that are not
negative no step fails. -/
theorem tween_lifetime (htweens : p.tweens = before ++ t :: behind)
    (hstart : (exact t.start).isFinite = true) (htarget : (exact t.target).isFinite = true)
    (steps : List Step) :
    ((∀ step ∈ steps, step.bounds.Nonnegative) →
      ∃ q commits, p.advanceEach steps = .ok (q, commits)) ∧
    ∀ q commits, p.advanceEach steps = .ok (q, commits) →
      (t.Lasts (times steps) → q.tweens = outliving (times steps) before ++
        t.laterBy (times steps) :: outliving (times steps) behind) ∧
      (¬ t.Lasts (times steps) → q.tweens =
        outliving (times steps) before ++ outliving (times steps) behind) ∧
      (t.Lasts (times steps) → ∀ (step : Step) (r : Primitive) (commit : Option ShapeCommit),
        q.advance step.dt step.bounds = .ok (r, commit) →
        ((t.laterBy (times steps)).later step.dt).Ends →
        (∀ u ∈ outliving (times steps) (before ++ behind), u.channel ≠ t.channel) →
        LandsOn (r.get t.channel) t.target) := by
  refine ⟨fun h => exists_advanceEach h p, fun q commits hrun => ?_⟩
  have hleft := tweens_advanceEach hrun
  rw [htweens, outliving_append] at hleft
  have hstays (hlasts : t.Lasts (times steps)) : q.tweens = outliving (times steps) before ++
      t.laterBy (times steps) :: outliving (times steps) behind := by
    rw [hleft, outliving_of_lasts hlasts]
  refine ⟨hstays, fun hends => ?_, fun hlasts step r commit hstep hends halone => ?_⟩
  · rw [hleft, outliving_of_not_lasts hends]
  · have hbehind (u) (hu : u ∈ outliving (times steps) behind) : u.channel ≠ t.channel := by
      refine halone u ?_
      rw [outliving_append]
      exact List.mem_append_right _ hu
    have hland := Tween.landsOn (t := (t.laterBy (times steps)).later step.dt) hstart htarget
    have hone : ((t.laterBy (times steps)).later step.dt).progress = 1 := progressAt_eq_one hends
    have hget := get_advance hstep (hstays hlasts) hbehind
    rw [hone] at hget
    exact hget ▸ hland

/-- A rectangle that slides and turns, the slide being faster. -/
def slidingRect : Primitive :=
  ((rect 1 1 true).startTween .x 2 1 .easeInOut).startTween .rotation 90 2 .linear

/-- The slide lands in the step that overshoots its duration. -/
theorem slidingRect_lands : ∃ q commits, slidingRect.advanceEach [⟨0.5, ⟨1, 1⟩⟩] = .ok (q, commits) ∧
    q.tweens.length = 2 ∧ ∀ r commit, q.advance 0.75 ⟨1, 1⟩ = .ok (r, commit) →
      LandsOn (r.get .x) 2 := by
  have hbounds : ∀ step ∈ [Step.mk 0.5 ⟨1, 1⟩], step.bounds.Nonnegative := by
    rw [List.forall_mem_singleton]
    exact ⟨by decide, by decide⟩
  have hlife := @tween_lifetime _ [] [_] slidingRect rfl rfl rfl [⟨0.5, ⟨1, 1⟩⟩]
  obtain ⟨q, commits, hrun⟩ := hlife.1 hbounds
  obtain ⟨hstays, -, hlands⟩ := hlife.2 q commits hrun
  refine ⟨q, commits, hrun, ?_, fun r commit hstep =>
    hlands (by decide) ⟨0.75, ⟨1, 1⟩⟩ r commit hstep (by decide) (by decide)⟩
  rw [hstays (by decide)]
  decide

/-- A step whose length is not a number drops a tween that is short of its end. -/
theorem dropped_by_undefined_step : ∃ (p q : Primitive) (t : Tween) (dt : Float) (bounds : Bounds),
    p.tweens = [t] ∧ p.advance dt bounds = .ok (q, none) ∧ q.tweens = [] ∧
      (exact t.start).isFinite = true ∧ (exact t.target).isFinite = true ∧ 0 < t.duration ∧
      ¬ 1 ≤ (t.later dt).elapsed / t.duration :=
  ⟨(rect 1 1 true).startTween .x 2 1 .linear, _, _, 0 / 0, ⟨1, 1⟩, rfl, rfl, by rfl, rfl, rfl,
    by decide, by decide⟩

end Primitive

end Animatic
