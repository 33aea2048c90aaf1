import Animatic.Proofs.Motion.Tweens
import Animatic.Proofs.Timeline.Search

/-!
# Overlapping tweens

Where several tweens drive one channel of a primitive at rest, the one that ends in the latest step
decides what is left there, the last in the list among several. Which one that is may depend on the
steps, unless the last tween of a channel is also the one with the longest way to go.

* `Tween.span`: the number of steps that a tween takes part in.
* `Settled`: what a completed run leaves in a channel.
* `SlowestLast`: no tween of a channel can end behind the last one; `span_le_span`.
* `Primitive.overlapping_tweens_settle`: what runs leave, and when it does not depend on the steps.
-/

namespace Animatic

open Number
open Float.Model.UnpackedFloat

variable {t u : Tween} {tweens before behind : List Tween} {dt : Float} {dts : List Float}
  {channel : Channel}

/-! ## Spans -/

/-- The number of steps that a tween takes part in: up to the first one in which it ends. -/
def Tween.span (t : Tween) : List Float → Nat
  | [] => 0
  | dt :: rest => if (t.later dt).Ends then 1 else (t.later dt).span rest + 1

theorem Tween.span_of_ends (h : (t.later dt).Ends) (dts : List Float) :
    t.span (dt :: dts) = 1 := if_pos h

theorem Tween.span_of_not_ends (h : ¬ (t.later dt).Ends) (dts : List Float) :
    t.span (dt :: dts) = (t.later dt).span dts + 1 := if_neg h

theorem Tween.span_pos (t : Tween) (h : dts ≠ []) : 0 < t.span dts := by
  cases dts with
  | nil => exact absurd rfl h
  | cons dt rest =>
    rw [span]
    split
    · exact Nat.one_pos
    · exact Nat.succ_pos _

/-- Whether a tween ends behind the others of its channel: not before those in front of it in the
list, and in a later step than those behind it. -/
structure LastToEnd (dts : List Float) (before : List Tween) (t : Tween) (behind : List Tween) :
    Prop where
  before : ∀ u ∈ before, u.channel = t.channel → u.span dts ≤ t.span dts
  behind : ∀ u ∈ behind, u.channel = t.channel → u.span dts < t.span dts

/-! ## Slower tweens -/

/-- A tween of finite numbers. -/
structure Tween.Finite (t : Tween) : Prop where
  start : (exact t.start).isFinite = true
  target : (exact t.target).isFinite = true
  duration : (exact t.duration).isFinite = true
  elapsed : (exact t.elapsed).isFinite = true

theorem Tween.Finite.elapsed_ne (h : t.Finite) : exact t.elapsed ≠ .infinity .negative := by
  intro hdown
  have hfinite := h.elapsed
  rw [hdown] at hfinite
  cases hfinite

/-- A tween with less time elapsed and a duration that is no shorter ends no earlier, whatever the
steps are. -/
theorem span_le_span (ht : (exact t.duration).isFinite = true)
    (hu : (exact u.duration).isFinite = true) (htdown : exact t.elapsed ≠ .infinity .negative)
    (hudown : exact u.elapsed ≠ .infinity .negative) (helapsed : t.elapsed ≤ u.elapsed)
    (hduration : u.duration ≤ t.duration) (hdts : ∀ dt ∈ dts, 0 ≤ dt) :
    u.span dts ≤ t.span dts := by
  induction dts generalizing t u with
  | nil => exact Nat.le_refl 0
  | cons dt dts ih =>
    rw [List.forall_mem_cons] at hdts
    obtain ⟨htnumber, hunumber⟩ := numbers_of_le helapsed
    have hlater := add_le_add_of_nonneg htdown hudown helapsed hdts.1
    have htlater := add_ne_negative_infinity htnumber htdown hdts.1
    have hulater := add_ne_negative_infinity hunumber hudown hdts.1
    obtain ⟨htsum, husum⟩ := numbers_of_le hlater
    by_cases hends : (u.later dt).Ends
    · rw [Tween.span_of_ends hends]
      exact t.span_pos (List.cons_ne_nil _ _)
    · have htends : (t.later dt).Ends ↔ t.duration ≤ 0 ∨ t.duration ≤ t.elapsed + dt :=
        atEnd_iff ht htsum htlater
      have huends : (u.later dt).Ends ↔ u.duration ≤ 0 ∨ u.duration ≤ u.elapsed + dt :=
        atEnd_iff hu husum hulater
      have hends' : ¬ (t.later dt).Ends := fun h => hends <| huends.mpr <|
        (htends.mp h).imp (le_trans_time hduration)
          fun h => le_trans_time hduration (le_trans_time h hlater)
      rw [Tween.span_of_not_ends hends, Tween.span_of_not_ends hends']
      exact Nat.succ_le_succ (ih (t := t.later dt) (u := u.later dt) ht hu htlater hulater hlater
        hduration hdts.2)

/-- Whether the last tween of a channel has no more time behind it than the others have, and is no
shorter. -/
def SlowestLast (tweens : List Tween) (channel : Channel) : Prop :=
  ∀ before t behind, tweens = before ++ t :: behind → t.channel = channel →
    (∀ u ∈ behind, u.channel ≠ channel) → ∀ u ∈ before, u.channel = channel →
      t.elapsed ≤ u.elapsed ∧ u.duration ≤ t.duration

/-! ## Lists of tweens -/

theorem mem_survivors (h : t ∈ tweens) (hends : ¬ (t.later dt).Ends) :
    t.later dt ∈ survivors dt tweens :=
  List.mem_filter.mpr ⟨List.mem_map_of_mem h, by simpa using hends⟩

/-- A split of the tweens that a step leaves comes from one of those that there were. -/
theorem survivors_split {ahead rear : List Tween}
    (h : survivors dt tweens = ahead ++ u :: rear) :
    ∃ before t behind, tweens = before ++ t :: behind ∧ t.later dt = u ∧ ¬ u.Ends ∧
      survivors dt before = ahead ∧ survivors dt behind = rear := by
  rw [survivors, List.filter_eq_append_iff] at h
  obtain ⟨all, others, hall, hahead, hothers⟩ := h
  obtain ⟨ended, rest, rfl, hended, hu, hrear⟩ := List.filter_eq_cons_iff.mp hothers
  obtain ⟨before, others, rfl, hbefore, hothers⟩ := List.map_eq_append_iff.mp hall
  obtain ⟨gone, others, rfl, hgone, hothers⟩ := List.map_eq_append_iff.mp hothers
  obtain ⟨t, behind, rfl, ht, hbehind⟩ := List.map_eq_cons_iff.mp hothers
  refine ⟨before ++ gone, t, behind, (List.append_assoc _ _ _).symm, ht, by simpa using hu, ?_, ?_⟩
  · rw [survivors, List.map_append, hbefore, hgone, List.filter_append, hahead,
      List.filter_eq_nil_iff.mpr hended, List.append_nil]
  · rw [survivors, hbehind, hrear]

/-- A channel that is driven is driven by a last tween. -/
theorem exists_last (h : ∃ t ∈ tweens, t.channel = channel) :
    ∃ before t behind, tweens = before ++ t :: behind ∧ t.channel = channel ∧
      ∀ u ∈ behind, u.channel ≠ channel := by
  induction tweens with
  | nil =>
    obtain ⟨t, ht, -⟩ := h
    cases ht
  | cons first rest ih =>
    by_cases hrest : ∃ t ∈ rest, t.channel = channel
    · obtain ⟨before, t, behind, rfl, ht, hbehind⟩ := ih hrest
      exact ⟨first :: before, t, behind, rfl, ht, hbehind⟩
    · obtain ⟨t, ht, hchannel⟩ := h
      rcases List.mem_cons.mp ht with rfl | ht
      · exact ⟨[], t, rest, rfl, hchannel, fun u hu hdriven => hrest ⟨u, hu, hdriven⟩⟩
      · exact absurd ⟨t, ht, hchannel⟩ hrest

/-- If the last tween of a channel is the slowest, it is the one that ends last. -/
theorem lastToEnd_of_slowestLast (hfinite : ∀ t ∈ tweens, t.Finite) (hdts : ∀ dt ∈ dts, 0 ≤ dt)
    (hslowest : SlowestLast tweens t.channel) (hsplit : tweens = before ++ t :: behind)
    (hbehind : ∀ u ∈ behind, u.channel ≠ t.channel) : LastToEnd dts before t behind where
  before u hu hchannel := by
    obtain ⟨helapsed, hduration⟩ := hslowest before t behind hsplit rfl hbehind u hu hchannel
    have ht := hfinite t (hsplit ▸ List.mem_append_right _ List.mem_cons_self)
    have hu' := hfinite u (hsplit ▸ List.mem_append_left _ hu)
    exact span_le_span ht.duration hu'.duration ht.elapsed_ne hu'.elapsed_ne helapsed hduration hdts
  behind u hu hchannel := absurd hchannel (hbehind u hu)

private theorem split_cases {α : Type} {before behind before' behind' : List α} {a a' : α}
    (h : before ++ a :: behind = before' ++ a' :: behind') :
    a = a' ∨ a ∈ before' ∧ a' ∈ behind ∨ a' ∈ before ∧ a ∈ behind' := by
  obtain ⟨mid, rfl, hmid⟩ | ⟨mid, rfl, hmid⟩ := List.append_eq_append_iff.mp h <;>
    cases mid <;> cases hmid
  · exact .inl rfl
  · exact .inr (.inl ⟨List.mem_append_right _ List.mem_cons_self,
      List.mem_append_right _ List.mem_cons_self⟩)
  · exact .inl rfl
  · exact .inr (.inr ⟨List.mem_append_right _ List.mem_cons_self,
      List.mem_append_right _ List.mem_cons_self⟩)

/-- Only one tween of a channel ends last. -/
theorem LastToEnd.unique {before' behind' : List Tween} (h : LastToEnd dts before t behind)
    (h' : LastToEnd dts before' u behind') (hchannel : t.channel = u.channel)
    (heq : before ++ t :: behind = before' ++ u :: behind') : t = u := by
  rcases split_cases heq with h₀ | ⟨hbefore, hbehind⟩ | ⟨hbefore, hbehind⟩
  · exact h₀
  · exact absurd (h.behind u hbehind hchannel.symm) (not_lt.mpr (h'.before t hbefore hchannel))
  · exact absurd (h'.behind t hbehind hchannel) (not_lt.mpr (h.before u hbefore hchannel.symm))

namespace Primitive

variable {p q next : Primitive} {steps : List Step} {commits : List ShapeCommit}
  {commit : Option ShapeCommit} {bounds : Bounds}

/-! ## Primitives at rest -/

/-- Whether a primitive has no velocity. -/
def AtRest (p : Primitive) : Prop := (p.velocityX == 0 && p.velocityY == 0) = true

theorem move_atRest (h : p.AtRest) (step : Float32) (bounds : Bounds) :
    p.move step bounds = .ok p := if_pos h

theorem exists_advance_of_atRest (h : p.AtRest) (dt : Float) (bounds : Bounds) :
    ∃ result, p.advance dt bounds = .ok result := by
  rw [advance, move_atRest h]
  exact ⟨_, rfl⟩

/-- A step leaves a primitive at rest, and changes no channel but those that tweens drive. -/
theorem advance_atRest (hrest : p.AtRest) (h : p.advance dt bounds = .ok (q, commit)) :
    q.AtRest ∧ ∀ channel, (∀ t ∈ p.tweens, t.channel ≠ channel) →
      q.get channel = p.get channel := by
  obtain ⟨moved, hmoved, hshape⟩ := advance_eq_ok h
  rw [move_atRest hrest] at hmoved
  obtain rfl := Except.ok.inj hmoved
  obtain ⟨-, hget, hvelocityX, hvelocityY⟩ := advanceShape_keeps hshape
  have hbody := sameBody_runTweens dt p.tweens p
  constructor
  · rw [AtRest, hvelocityX, hvelocityY]
    change ((runTweens dt p.tweens p).2.velocityX == 0 &&
      (runTweens dt p.tweens p).2.velocityY == 0) = true
    rwa [hbody.velocityX, hbody.velocityY]
  · intro channel hundriven
    rw [hget, get_advanceTweens]
    exact get_runTweens_of_undriven hundriven dt p

theorem exists_advanceEach_of_atRest (h : p.AtRest) (steps : List Step) :
    ∃ q commits, p.advanceEach steps = .ok (q, commits) := by
  induction steps generalizing p with
  | nil => exact ⟨p, [], rfl⟩
  | cons step steps ih =>
    obtain ⟨⟨next, commit⟩, hnext⟩ := exists_advance_of_atRest h step.dt step.bounds
    obtain ⟨q, others, hrest⟩ := ih (advance_atRest h hnext).1
    exact ⟨q, commit.toList ++ others, advanceEach_eq_ok hnext hrest⟩

/-- A run does not change a channel that no tween drives. -/
theorem get_advanceEach_of_undriven (hrest : p.AtRest)
    (h : p.advanceEach steps = .ok (q, commits)) (hundriven : ∀ t ∈ p.tweens, t.channel ≠ channel) :
    q.get channel = p.get channel := by
  induction steps generalizing p commits with
  | nil =>
    cases h
    rfl
  | cons step steps ih =>
    obtain ⟨next, commit, others, hstep, hsteps, -⟩ := advanceEach_cons h
    obtain ⟨hnext, hget⟩ := advance_atRest hrest hstep
    rw [ih hnext hsteps, hget channel hundriven]
    intro t ht
    rw [tweens_advance hstep] at ht
    obtain ⟨ht, -⟩ := List.mem_filter.mp ht
    obtain ⟨u, hu, rfl⟩ := List.mem_map.mp ht
    exact hundriven u hu

/-- A run that completes all tweens leaves in a channel what the last one to end sets. -/
theorem get_of_lastToEnd (hrest : p.AtRest) (h : p.advanceEach steps = .ok (q, commits))
    (hdone : q.tweens = []) (hdriven : ∃ t ∈ p.tweens, t.channel = channel) :
    ∃ before t behind, p.tweens = before ++ t :: behind ∧ t.channel = channel ∧
      LastToEnd (times steps) before t behind ∧
      q.get channel = widen (narrow (t.valueAt 1)) := by
  induction steps generalizing p commits with
  | nil =>
    cases h
    obtain ⟨t, ht, -⟩ := hdriven
    rw [hdone] at ht
    cases ht
  | cons step steps ih =>
    obtain ⟨next, commit, others, hstep, hsteps, -⟩ := advanceEach_cons h
    obtain ⟨hnext, -⟩ := advance_atRest hrest hstep
    have hleft := tweens_advance hstep
    by_cases hstill : ∃ t ∈ next.tweens, t.channel = channel
    · -- the last one to end is among the tweens that are left
      obtain ⟨ahead, u, rear, htweens, hchannel, hlast, hget⟩ := ih hnext hsteps hstill
      rw [hleft] at htweens
      obtain ⟨before, t, behind, hsplit, rfl, hends, rfl, rfl⟩ := survivors_split htweens
      have hsteps' : times steps ≠ [] := by
        rintro hnil
        obtain rfl := List.map_eq_nil_iff.mp hnil
        cases hsteps
        rw [hleft, htweens] at hdone
        exact List.append_ne_nil_of_right_ne_nil _ (List.cons_ne_nil _ _) hdone
      have hspan := Tween.span_of_not_ends hends (times steps)
      refine ⟨before, t, behind, hsplit, hchannel, ⟨fun u hu hdrives => ?_, fun u hu hdrives => ?_⟩,
        hget⟩ <;> rw [times, List.map_cons, ← times, hspan] <;>
        by_cases hu' : (u.later step.dt).Ends
      · rw [Tween.span_of_ends hu']
        omega
      · rw [Tween.span_of_not_ends hu']
        exact Nat.succ_le_succ (hlast.before _ (mem_survivors hu hu') hdrives)
      · rw [Tween.span_of_ends hu']
        exact Nat.succ_lt_succ ((t.later step.dt).span_pos hsteps')
      · rw [Tween.span_of_not_ends hu']
        exact Nat.succ_lt_succ (hlast.behind _ (mem_survivors hu hu') hdrives)
    · -- all tweens of the channel end in this step
      have hends {u : Tween} (hu : u ∈ p.tweens) (hdrives : u.channel = channel) :
          (u.later step.dt).Ends := by
        by_contra hu'
        exact hstill ⟨u.later step.dt, hleft ▸ mem_survivors hu hu', hdrives⟩
      obtain ⟨before, t, behind, hsplit, rfl, hbehind⟩ := exists_last hdriven
      have hmem : t ∈ p.tweens := by
        rw [hsplit]
        exact List.mem_append_right _ List.mem_cons_self
      refine ⟨before, t, behind, hsplit, rfl, ⟨fun u hu hdrives => ?_, fun u hu hdrives =>
        absurd hdrives (hbehind u hu)⟩, ?_⟩
      · have hu' : u ∈ p.tweens := hsplit ▸ List.mem_append_left _ hu
        rw [times, List.map_cons, Tween.span_of_ends (hends hu' hdrives),
          Tween.span_of_ends (hends hmem rfl)]
      · have hone : (t.later step.dt).progress = 1 := progressAt_eq_one (hends hmem rfl)
        have hget := get_advance hstep hsplit hbehind
        rw [hone] at hget
        rw [get_advanceEach_of_undriven hnext hsteps fun u hu hdrives => hstill ⟨u, hu, hdrives⟩]
        exact hget

/-! ## What runs leave -/

/-- What a run that completes all tweens leaves in a channel: what was there, if no tween drives it,
and otherwise the target of the tween that ends last. -/
def Settled (p : Primitive) (dts : List Float) (q : Primitive) (channel : Channel) : Prop :=
  (∀ t ∈ p.tweens, t.channel ≠ channel) ∧ q.get channel = p.get channel ∨
    ∃ before t behind, p.tweens = before ++ t :: behind ∧ t.channel = channel ∧
      LastToEnd dts before t behind ∧ LandsOn (q.get channel) t.target

/-- Runs that complete all tweens of a primitive at rest leave in every channel what the tween that
ends last sets. So they leave the same there if the same tween ends last, and this is so whatever
the steps are if the last tween of the channel is the slowest. -/
theorem overlapping_tweens_settle (hrest : p.AtRest) (hfinite : ∀ t ∈ p.tweens, t.Finite) :
    (∀ steps, ∃ q commits, p.advanceEach steps = .ok (q, commits) ∧
      (q.tweens = [] → ∀ channel, Settled p (times steps) q channel)) ∧
    ∀ (steps steps' : List Step) (q q' : Primitive) (commits commits' : List ShapeCommit),
      (∀ step ∈ steps, 0 ≤ step.dt) → (∀ step ∈ steps', 0 ≤ step.dt) →
      p.advanceEach steps = .ok (q, commits) → p.advanceEach steps' = .ok (q', commits') →
      q.tweens = [] → q'.tweens = [] →
      ∀ channel, (SlowestLast p.tweens channel ∨ ∃ before t behind,
          p.tweens = before ++ t :: behind ∧ t.channel = channel ∧
            LastToEnd (times steps) before t behind ∧ LastToEnd (times steps') before t behind) →
        q.get channel = q'.get channel := by
  refine ⟨fun steps => ?_, ?_⟩
  · obtain ⟨q, commits, hrun⟩ := exists_advanceEach_of_atRest hrest steps
    refine ⟨q, commits, hrun, fun hdone channel => ?_⟩
    by_cases hdriven : ∃ t ∈ p.tweens, t.channel = channel
    · obtain ⟨before, t, behind, hsplit, rfl, hlast, hget⟩ :=
        get_of_lastToEnd hrest hrun hdone hdriven
      have hmem : t ∈ p.tweens := hsplit ▸ List.mem_append_right _ List.mem_cons_self
      refine .inr ⟨before, t, behind, hsplit, rfl, hlast, ?_⟩
      rw [hget]
      exact Tween.landsOn (hfinite t hmem).start (hfinite t hmem).target
    · have hundriven : ∀ t ∈ p.tweens, t.channel ≠ channel :=
        fun t ht hchannel => hdriven ⟨t, ht, hchannel⟩
      exact .inl ⟨hundriven, get_advanceEach_of_undriven hrest hrun hundriven⟩
  · intro steps steps' q q' commits commits' hdts hdts' hrun hrun' hdone hdone' channel hsame
    by_cases hdriven : ∃ t ∈ p.tweens, t.channel = channel
    · obtain ⟨before, t, behind, hsplit, hchannel, hlast, hlast'⟩ : ∃ before t behind,
          p.tweens = before ++ t :: behind ∧ t.channel = channel ∧
            LastToEnd (times steps) before t behind ∧ LastToEnd (times steps') before t behind := by
        refine hsame.elim (fun hslowest => ?_) id
        obtain ⟨before, t, behind, hsplit, rfl, hbehind⟩ := exists_last hdriven
        exact ⟨before, t, behind, hsplit, rfl,
          lastToEnd_of_slowestLast hfinite (List.forall_mem_map.mpr hdts) hslowest hsplit hbehind,
          lastToEnd_of_slowestLast hfinite (List.forall_mem_map.mpr hdts') hslowest hsplit hbehind⟩
      obtain ⟨_, u, _, husplit, huchannel, hu, hget⟩ := get_of_lastToEnd hrest hrun hdone hdriven
      obtain ⟨_, u', _, husplit', huchannel', hu', hget'⟩ :=
        get_of_lastToEnd hrest hrun' hdone' hdriven
      rw [hget, hget', ← hlast.unique hu (hchannel.trans huchannel.symm) (hsplit ▸ husplit),
        ← hlast'.unique hu' (hchannel.trans huchannel'.symm) (hsplit ▸ husplit')]
    · have hundriven : ∀ t ∈ p.tweens, t.channel ≠ channel :=
        fun t ht hchannel => hdriven ⟨t, ht, hchannel⟩
      rw [get_advanceEach_of_undriven hrest hrun hundriven,
        get_advanceEach_of_undriven hrest hrun' hundriven]

/-- A rectangle with two tweens of its horizontal place. -/
def contested (first second : Float) : Primitive :=
  ((rect 1 1 true).startTween .x 7 first .linear).startTween .x 5 second .linear

theorem contested_finite {first second : Float} (hfirst : (exact first).isFinite = true)
    (hsecond : (exact second).isFinite = true) :
    ∀ t ∈ (contested first second).tweens, t.Finite := by
  have hplace : (exact ((rect 1 1 true).get .x)).isFinite = true := rfl
  have hzero : (exact 0).isFinite = true := rfl
  have hseven : (exact 7).isFinite = true := rfl
  have hfive : (exact 5).isFinite = true := rfl
  intro t ht
  rcases List.mem_cons.mp ht with rfl | ht
  · exact ⟨hplace, hseven, hfirst, hzero⟩
  · obtain rfl := List.mem_singleton.mp ht
    exact ⟨hplace, hfive, hsecond, hzero⟩

/-- The longer tween comes last and decides, in one step as in two. -/
theorem contested_settles : ∃ q q' commits commits',
    (contested 1 2).AtRest ∧ (∀ t ∈ (contested 1 2).tweens, t.Finite) ∧
    (contested 1 2).advanceEach [⟨2, ⟨1, 1⟩⟩] = .ok (q, commits) ∧
    (contested 1 2).advanceEach [⟨1, ⟨1, 1⟩⟩, ⟨1, ⟨1, 1⟩⟩] = .ok (q', commits') ∧
    q.tweens = [] ∧ q'.tweens = [] ∧ q.get .x = q'.get .x := by
  have hfinite : ∀ t ∈ (contested 1 2).tweens, t.Finite := contested_finite rfl rfl
  refine ⟨_, _, _, _, rfl, hfinite, rfl, rfl, by rfl, by rfl, ?_⟩
  exact (overlapping_tweens_settle (p := contested 1 2) rfl hfinite).2
    [⟨2, ⟨1, 1⟩⟩] [⟨1, ⟨1, 1⟩⟩, ⟨1, ⟨1, 1⟩⟩] _ _ _ _ (by decide) (by decide)
    rfl rfl (by rfl) (by rfl) .x
    (.inr ⟨[_], _, [], rfl, rfl, ⟨by decide, nofun⟩, ⟨by decide, nofun⟩⟩)

/-- With the shorter tween last, one step leaves another place than two of half the length. -/
theorem contested_unsettled : ∃ q q' commits commits',
    (contested 2 1).AtRest ∧ (∀ t ∈ (contested 2 1).tweens, t.Finite) ∧
    (contested 2 1).advanceEach [⟨2, ⟨1, 1⟩⟩] = .ok (q, commits) ∧
    (contested 2 1).advanceEach [⟨1, ⟨1, 1⟩⟩, ⟨1, ⟨1, 1⟩⟩] = .ok (q', commits') ∧
    q.tweens = [] ∧ q'.tweens = [] ∧ q.get .x = 5 ∧ q'.get .x = 7 :=
  ⟨_, _, _, _, rfl, contested_finite rfl rfl, rfl, rfl, by rfl, by rfl, by decide +kernel,
    by decide +kernel⟩

end Primitive

end Animatic
