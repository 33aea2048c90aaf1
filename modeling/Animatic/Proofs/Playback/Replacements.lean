import Animatic.Proofs.Motion.ShapeTweens
import Animatic.Proofs.Playback.Ownership

/-!
# Replacements

A step of animation moves the displayed primitives. The replacing morphs that it brings to their end
then have their turns, in draw order. A turn that finds the target owned puts it into the slot of
the source; what an earlier turn did with the source or the target is what a later one finds.

* `Scene.replacements`: the replacing morphs that a step brings to their end.
* `Scene.Turn`, `Scene.Turns`: what one of them does, and what all of them do.
* `Scene.turns_swapAll`: the turns are those of a scene's replacements.
* `Scene.animated_of_animate`: what a step of animation changes, and what it leaves alone.
-/

namespace Animatic

/-- What is to take the place of a primitive after a step: the goal of a replacing shape tween that
is at its end then. -/
def Primitive.replacementAfter (p : Primitive) (dt : Float) : Option PrimitiveId :=
  p.shapeTween.bind fun tween =>
    if AtEnd (tween.elapsed + dt) tween.duration then tween.commit.replacement else none

theorem Primitive.replacement_of_advance {p q : Primitive} {dt : Float} {bounds : Bounds}
    {commit : Option ShapeCommit} (h : p.advance dt bounds = .ok (q, commit)) :
    commit.bind (·.replacement) = p.replacementAfter dt := by
  cases htween : p.shapeTween with
  | none => simp [replacementAfter, htween, (advance_without htween h).2]
  | some tween =>
    by_cases hend : AtEnd (tween.elapsed + dt) tween.duration
    · simp [replacementAfter, htween, hend, (advance_ended htween hend h).1]
    · simp [replacementAfter, htween, hend, (advance_lasting htween hend h).1]

namespace Scene

variable {scene middle moved next : Scene} {id source target : PrimitiveId} {dt : Float}
  {entries : List LogEntry}

/-! ## What is due -/

/-- The replacement of a primitive that a step makes due. -/
def replacement? (scene : Scene) (dt : Float) (id : PrimitiveId) :
    Option (PrimitiveId × PrimitiveId) :=
  ((scene.get? id).bind (·.replacementAfter dt)).map (id, ·)

/-- The replacements that a step makes due, in draw order. -/
def replacements (scene : Scene) (dt : Float) : List (PrimitiveId × PrimitiveId) :=
  scene.display.filterMap (scene.replacement? dt)

/-- Whether a primitive is the source or the target of a replacement that a step makes due. -/
def isReplacing (scene : Scene) (dt : Float) (id : PrimitiveId) : Bool :=
  (scene.replacements dt).any fun (source, target) => id == source || id == target

theorem fst_of_replacement? {swap : PrimitiveId × PrimitiveId}
    (h : scene.replacement? dt id = some swap) : swap.1 = id := by
  obtain ⟨target, -, rfl⟩ := Option.map_eq_some_iff.mp h
  rfl

/-- The sources of what is due are displayed, in draw order. -/
theorem sources_sublist (scene : Scene) (dt : Float) :
    ((scene.replacements dt).map Prod.fst).Sublist scene.display := by
  rw [replacements]
  generalize scene.display = ids
  induction ids with
  | nil => simp
  | cons id rest ih =>
    cases hid : scene.replacement? dt id with
    | none => simpa [hid] using ih.cons id
    | some swap => simpa [hid, fst_of_replacement? hid] using ih.cons_cons id

/-! ## Moves -/

/-- Some primitives have moved by a step; the others are as they were, and so is what is
displayed. -/
structure Moved (ids : List PrimitiveId) (dt : Float) (scene moved : Scene) : Prop where
  advanced : ∀ id ∈ ids, ∃ p q commit, scene.get? id = some p ∧
    p.advance dt scene.bounds = .ok (q, commit) ∧ moved.get? id = some q
  others : ∀ id ∉ ids, moved.get? id = scene.get? id
  display : moved.display = scene.display

theorem get?_put_of_ne {other : PrimitiveId} (h : other ≠ id) (p : Primitive) :
    (scene.put id p).get? other = scene.get? other := by
  rw [put, get?_setSlot, if_neg (fun hid => h hid.1)]

theorem get?_disown (scene : Scene) (id other : PrimitiveId) :
    (scene.disown id).get? other = if other = id then none else scene.get? other := by
  rw [disown, get?_setSlot]
  by_cases hid : other = id
  · subst hid
    by_cases hlt : other.number < scene.slots.size
    · simp [hlt]
    · simp [hlt, get?]
  · simp [hid]

/-- Primitives that are owned and listed once move, each by itself, and what they make due is what
was to be expected of them before. -/
theorem moved_advanceAll {ids : List PrimitiveId} {swaps : List (PrimitiveId × PrimitiveId)}
    (hdistinct : ids.Nodup) (howned : ∀ id ∈ ids, scene.contains id = true)
    (h : advanceAll dt ids scene = .ok (moved, swaps)) :
    Moved ids dt scene moved ∧ swaps = ids.filterMap (scene.replacement? dt) := by
  induction ids generalizing scene swaps with
  | nil =>
    cases h
    exact ⟨⟨nofun, fun _ _ => rfl, rfl⟩, rfl⟩
  | cons id rest ih =>
    obtain ⟨hfresh, hdistinct⟩ := List.nodup_cons.mp hdistinct
    obtain ⟨hid, howned⟩ := List.forall_mem_cons.mp howned
    obtain ⟨p, hp⟩ := Option.isSome_iff_exists.mp hid
    simp only [advanceAll, hp] at h
    obtain ⟨⟨q, commit⟩, hq, h⟩ := of_bind_eq_ok h
    obtain ⟨⟨last, others⟩, hrest, h⟩ := of_bind_eq_ok h
    cases h
    have hsame (other : PrimitiveId) (hother : other ∈ rest) :
        (scene.put id q).get? other = scene.get? other :=
      get?_put_of_ne (ne_of_mem_of_not_mem hother hfresh) q
    obtain ⟨hmoved, rfl⟩ := ih hdistinct
      (fun other hother => (contains_put hid q other).trans (howned other hother)) hrest
    refine ⟨⟨?_, fun other hother => ?_, hmoved.display⟩, ?_⟩
    · rintro other (_ | ⟨_, hother⟩)
      · exact ⟨p, q, commit, hp, hq, (hmoved.others id hfresh).trans (get?_put hp q)⟩
      · obtain ⟨p', q', commit', hp', hq', hlast⟩ := hmoved.advanced other hother
        exact ⟨p', q', commit', (hsame other hother).symm.trans hp', hq', hlast⟩
    · obtain ⟨hne, hother⟩ := not_or.mp (List.mem_cons.not.mp hother)
      exact (hmoved.others other hother).trans (get?_put_of_ne hne q)
    · have hdue : rest.filterMap ((scene.put id q).replacement? dt) =
          rest.filterMap (scene.replacement? dt) :=
        List.filterMap_congr fun other hother => by simp [replacement?, hsame other hother]
      rw [hdue, Primitive.replacement_of_advance hq, List.filterMap_cons, replacement?, hp]
      cases hreplacement : p.replacementAfter dt <;> simp [hreplacement]

/-! ## Turns -/

/-- The target has taken the slot and the transform of the source, which is gone. -/
structure Replaced (source target : PrimitiveId) (scene next : Scene) : Prop where
  placed : ∃ old new, scene.get? source = some old ∧ scene.get? target = some new ∧
    next.get? target = some { new with transform := old.transform }
  dropped : next.get? source = none ∧ source ∉ next.display
  others : ∀ id, id ≠ source → id ≠ target → next.get? id = scene.get? id
  slot : ∃ before behind, scene.display = before ++ source :: behind ∧
    next.display = before.filter (· != target) ++ target :: behind.filter (· != target)

/-- What is said of a target that is gone. -/
def vanished (source target : PrimitiveId) : LogEntry :=
  ⟨.warn, "morph target " ++ target.text ++ " vanished; keeping " ++ source.text⟩

/-- The turn of a finished morph whose source is owned. -/
inductive Turn (source target : PrimitiveId) (scene : Scene) : Scene → List LogEntry → Prop where
  | replaced {next : Scene} (hsource : scene.contains source = true)
      (htarget : scene.contains target = true) (hne : target ≠ source)
      (h : Replaced source target scene next) : Turn source target scene next []
  | kept (hsource : scene.contains source = true)
      (htarget : target = source ∨ scene.contains target = false) :
      Turn source target scene scene [vanished source target]

/-- The turns of finished morphs, one after the other. -/
inductive Turns : List (PrimitiveId × PrimitiveId) → Scene → Scene → List LogEntry → Prop where
  | nil (scene : Scene) : Turns [] scene scene []
  | cons {source target : PrimitiveId} {rest : List (PrimitiveId × PrimitiveId)}
      {scene middle next : Scene} {first others : List LogEntry}
      (hturn : Turn source target scene middle first) (hrest : Turns rest middle next others) :
      Turns ((source, target) :: rest) scene next (first ++ others)

/-- In a list that does not have the source there is nothing to put the target in the place of. -/
private theorem map_replace_of_not_mem {ids : List PrimitiveId} (h : source ∉ ids) :
    (ids.map fun id => if id = source then target else id) = ids := by
  refine (List.map_congr_left fun id hid => ?_).trans ids.map_id
  exact if_neg (ne_of_mem_of_not_mem hid h)

/-- If the source of a morph is owned and displayed, a swap is its turn. -/
theorem turn_swap (hdistinct : scene.display.Nodup) (hsource : scene.contains source = true)
    (hshown : source ∈ scene.display) (target : PrimitiveId) :
    Turn source target scene (scene.swap source target).1 (scene.swap source target).2 := by
  obtain ⟨old, hold⟩ := Option.isSome_iff_exists.mp hsource
  by_cases hsame : target = source
  · simp only [swap, hold, get?_disown, if_pos hsame]
    exact .kept hsource (.inl hsame)
  cases hnew : scene.get? target with
  | none =>
    simp only [swap, hold, get?_disown, if_neg hsame, hnew]
    exact .kept hsource (.inr (by simp [contains, hnew]))
  | some new =>
    have hrest : (scene.disown source).get? target = some new := by
      rw [get?_disown, if_neg hsame, hnew]
    obtain ⟨before, behind, hdisplay⟩ := List.append_of_mem hshown
    have hbefore : source ∉ before.filter (· != target) := by grind
    have hbehind : source ∉ behind.filter (· != target) := by grind
    have hothers : scene.display.filter (· != target) =
        before.filter (· != target) ++ source :: behind.filter (· != target) := by
      simp [hdisplay, Ne.symm hsame]
    simp only [swap, hold, hrest, hothers]
    refine .replaced hsource (contains_of_get? hnew) hsame ⟨⟨old, new, hold, hnew, ?_⟩, ⟨?_, ?_⟩,
      fun id hidsource hidtarget => ?_, before, behind, hdisplay, ?_⟩
    · exact get?_put hrest _
    · exact (get?_put_of_ne (Ne.symm hsame) _).trans (by rw [get?_disown, if_pos rfl])
    · simp [map_replace_of_not_mem hbefore, map_replace_of_not_mem hbehind, hbefore, hbehind,
        Ne.symm hsame]
    · exact (get?_put_of_ne hidtarget _).trans (by rw [get?_disown, if_neg hidsource])
    · simp [map_replace_of_not_mem hbefore, map_replace_of_not_mem hbehind]

namespace Turn

/-- A turn leaves what takes no part in it as it is. -/
theorem get?_eq (h : Turn source target scene next entries) (hsource : id ≠ source)
    (htarget : id ≠ target) : next.get? id = scene.get? id := by
  cases h with
  | replaced _ _ _ h => exact h.others id hsource htarget
  | kept => rfl

/-- A turn leaves the order of what takes no part in it as it is. -/
theorem filter_display (h : Turn source target scene next entries) {P : PrimitiveId → Bool}
    (hsource : P source = false) (htarget : P target = false) :
    next.display.filter P = scene.display.filter P := by
  cases h with
  | replaced _ _ _ h =>
    obtain ⟨before, behind, hscene, hnext⟩ := h.slot
    have hfilter (ids : List PrimitiveId) : (ids.filter (· != target)).filter P = ids.filter P := by
      rw [List.filter_filter]
      refine List.filter_congr fun id _ => ?_
      by_cases hid : id = target
      · simp [hid, htarget]
      · simp [hid]
    simp [hscene, hnext, hsource, htarget, hfilter]
  | kept => rfl

/-- What is owned and displayed stays so in the turn of another source. -/
theorem standing (h : Turn source target scene next entries) (hne : id ≠ source)
    (howned : scene.contains id = true) (hshown : id ∈ scene.display) :
    next.contains id = true ∧ id ∈ next.display := by
  cases h with
  | replaced _ _ _ h =>
    obtain ⟨before, behind, hscene, hnext⟩ := h.slot
    by_cases hid : id = target
    · subst hid
      obtain ⟨old, new, -, -, hplaced⟩ := h.placed
      exact ⟨contains_of_get? hplaced, by simp [hnext]⟩
    · refine ⟨by rwa [contains, h.others id hne hid], ?_⟩
      simpa [hscene, hnext, hne, hid] using hshown
  | kept => exact ⟨howned, hshown⟩

end Turn

/-- Finished morphs have their turns, if each source is owned and displayed and none is the source
of two of them. Only a source is given up, so that the later sources still stand after a turn. -/
theorem turns_swapAll {swaps : List (PrimitiveId × PrimitiveId)} (hsound : scene.Sound)
    (hdistinct : (swaps.map Prod.fst).Nodup) (hshown : ∀ swap ∈ swaps, swap.1 ∈ scene.display) :
    Turns swaps scene (swapAll swaps scene).1 (swapAll swaps scene).2 := by
  induction swaps generalizing scene with
  | nil => exact .nil scene
  | cons swap rest ih =>
    obtain ⟨source, target⟩ := swap
    obtain ⟨hfresh, hdistinct⟩ := List.nodup_cons.mp hdistinct
    obtain ⟨hsource, hshown⟩ := List.forall_mem_cons.mp hshown
    have hturn := turn_swap hsound.distinct (hsound.displayed source hsource) hsource target
    obtain ⟨hnext, -⟩ := preserves_swap scene source target hsound
    refine .cons hturn (ih hnext hdistinct fun other hother => ?_)
    have hne : other.1 ≠ source := ne_of_mem_of_not_mem (List.mem_map_of_mem hother) hfresh
    have hstands := hshown other hother
    exact (hturn.standing hne (hsound.displayed _ hstands) hstands).2

namespace Turns

variable {swaps : List (PrimitiveId × PrimitiveId)}

theorem get?_eq (h : Turns swaps scene next entries)
    (hid : ∀ swap ∈ swaps, id ≠ swap.1 ∧ id ≠ swap.2) : next.get? id = scene.get? id := by
  induction h with
  | nil => rfl
  | cons hturn _ ih =>
    obtain ⟨⟨hsource, htarget⟩, hid⟩ := List.forall_mem_cons.mp hid
    exact (ih hid).trans (hturn.get?_eq hsource htarget)

theorem filter_display (h : Turns swaps scene next entries) {P : PrimitiveId → Bool}
    (hP : ∀ swap ∈ swaps, P swap.1 = false ∧ P swap.2 = false) :
    next.display.filter P = scene.display.filter P := by
  induction h with
  | nil => rfl
  | cons hturn _ ih =>
    obtain ⟨⟨hsource, htarget⟩, hP⟩ := List.forall_mem_cons.mp hP
    exact (ih hP).trans (hturn.filter_display hsource htarget)

end Turns

/-! ## Animation -/

private theorem size_swap (scene : Scene) (source target : PrimitiveId) :
    (scene.swap source target).1.slots.size = scene.slots.size := by
  rw [swap]
  split
  · rfl
  · dsimp only
    split
    · rfl
    · simp [put, disown]

/-- What a step of animation does to a scene. -/
structure Animated (scene : Scene) (dt : Float) (next : Scene) (entries : List LogEntry) :
    Prop where
  /-- What is neither displayed nor the target of a morph that ends is left alone. -/
  others : ∀ id ∉ scene.display, (∀ swap ∈ scene.replacements dt, id ≠ swap.2) →
    next.get? id = scene.get? id
  /-- What is displayed and has no part in a morph that ends moves by the step. -/
  bystanders : ∀ id ∈ scene.display, scene.isReplacing dt id = false → ∃ p q commit,
    scene.get? id = some p ∧ p.advance dt scene.bounds = .ok (q, commit) ∧ next.get? id = some q
  /-- What has no part in a morph that ends is displayed in the same order. -/
  order : next.display.filter (!scene.isReplacing dt ·) =
    scene.display.filter (!scene.isReplacing dt ·)
  /-- All that is displayed has moved when the morphs that end have their turns. -/
  turns : ∃ moved, Moved scene.display dt scene moved ∧
    Turns (scene.replacements dt) moved next entries
  /-- Nothing else of the scene has a part in it. -/
  time : scene.SameTime next
  bounds : next.bounds = scene.bounds
  size : next.slots.size = scene.slots.size

theorem animated_of_sound (hsound : scene.Sound)
    (h : scene.animate dt = .ok (next, entries)) : scene.Animated dt next entries := by
  have htime := sameTime_animate h
  have hbounds := bounds_animate h
  have hsize : next.slots.size = scene.slots.size :=
    relates_animate (R := fun scene next => next.slots.size = scene.slots.size) (fun _ => rfl)
      (fun _ _ _ h h' => h'.trans h) (fun _ _ _ _ => Array.size_setIfInBounds) size_swap h
  obtain ⟨⟨moved, swaps⟩, hadvance, h⟩ := of_bind_eq_ok h
  obtain ⟨hmoved, rfl⟩ := moved_advanceAll hsound.distinct hsound.displayed hadvance
  have hsources := sources_sublist scene dt
  have hturns : Turns (scene.replacements dt) moved next entries := by
    have hkept : moved.Sound := by
      refine ⟨hmoved.display ▸ hsound.distinct, fun id hid => ?_, fun _ => number_lt_of_contains⟩
      obtain ⟨_, _, _, -, -, hget⟩ := hmoved.advanced id (hmoved.display ▸ hid)
      exact contains_of_get? hget
    have hshown : ∀ swap ∈ scene.replacements dt, swap.1 ∈ moved.display := fun swap hswap =>
      hmoved.display ▸ hsources.subset (List.mem_map_of_mem hswap)
    have hturns := turns_swapAll hkept (hsound.distinct.sublist hsources) hshown
    obtain heq : swapAll (scene.replacements dt) moved = (next, entries) := Except.ok.inj h
    rwa [heq] at hturns
  refine ⟨fun id hid htarget => ?_, fun id hid hnone => ?_, ?_, ⟨moved, hmoved, hturns⟩, htime,
    hbounds, hsize⟩
  · refine (hturns.get?_eq fun swap hswap => ⟨fun heq => hid ?_, htarget swap hswap⟩).trans
      (hmoved.others id hid)
    exact heq ▸ hsources.subset (List.mem_map_of_mem hswap)
  · obtain ⟨p, q, commit, hp, hq, hget⟩ := hmoved.advanced id hid
    refine ⟨p, q, commit, hp, hq, (hturns.get?_eq fun swap hswap => ?_).trans hget⟩
    simpa [not_or] using List.any_eq_false.mp hnone swap hswap
  · rw [← hmoved.display]
    refine hturns.filter_display fun swap hswap => ?_
    have hsource : scene.isReplacing dt swap.1 = true :=
      List.any_eq_true.mpr ⟨swap, hswap, by simp⟩
    have htarget : scene.isReplacing dt swap.2 = true :=
      List.any_eq_true.mpr ⟨swap, hswap, by simp⟩
    simp [hsource, htarget]

/-- If what is displayed is owned and displayed once, a step of animation moves what is displayed,
and then each morph that it brings to its end has its turn, in draw order. Nothing else is changed.
Within bounds that are not negative the step is always made. -/
theorem animated_of_animate (hdistinct : scene.display.Nodup)
    (howned : ∀ id ∈ scene.display, scene.contains id = true) (dt : Float) :
    (∀ next entries, scene.animate dt = .ok (next, entries) → scene.Animated dt next entries) ∧
      (scene.bounds.Nonnegative → ∃ next entries, scene.animate dt = .ok (next, entries)) := by
  refine ⟨fun next entries h => ?_, fun hbounds => ?_⟩
  · exact animated_of_sound ⟨hdistinct, howned, fun _ => number_lt_of_contains⟩ h
  · obtain ⟨next, entries, h, -⟩ := exists_animate hbounds dt
    exact ⟨next, entries, h⟩

/-- A primitive that is to be replaced within a second. -/
def departing (target : Nat) : Primitive :=
  { Primitive.rect 1 1 true with
    shapeTween := some (.start [] [] 1 .linear ⟨[], true, some ⟨target⟩⟩) }

/-- Six primitives: the second and the fifth are to become the third, which is to become the fourth,
and the sixth is to become itself. -/
def departures : Scene :=
  { empty ⟨1, 1⟩ with
    slots := #[some (.rect 1 1 true), some (departing 2), some (departing 3),
      some (.rect 1 1 true), some (departing 2), some (departing 5)]
    display := [⟨1⟩, ⟨0⟩, ⟨2⟩, ⟨4⟩, ⟨5⟩] }

/-- The third has been replaced when the fifth has its turn. -/
theorem departures_animated : departures.display.Nodup ∧
    (∀ id ∈ departures.display, departures.contains id = true) ∧
    departures.replacements 1 = [(⟨1⟩, ⟨2⟩), (⟨2⟩, ⟨3⟩), (⟨4⟩, ⟨2⟩), (⟨5⟩, ⟨5⟩)] ∧
    ∃ next entries, departures.animate 1 = .ok (next, entries) ∧
      departures.Animated 1 next entries ∧ next.display = [⟨3⟩, ⟨0⟩, ⟨4⟩, ⟨5⟩] ∧
      entries = [vanished ⟨4⟩ ⟨2⟩, vanished ⟨5⟩ ⟨5⟩] := by
  have hdistinct : departures.display.Nodup := by decide
  have howned : ∀ id ∈ departures.display, departures.contains id = true := by decide
  obtain ⟨hanimated, hreturns⟩ := animated_of_animate hdistinct howned 1
  obtain ⟨next, entries, h⟩ := hreturns ⟨by decide, by decide⟩
  have hresult :
      (departures.animate 1).toOption.map (fun result => (result.1.display, result.2)) =
        some ([⟨3⟩, ⟨0⟩, ⟨4⟩, ⟨5⟩], [vanished ⟨4⟩ ⟨2⟩, vanished ⟨5⟩ ⟨5⟩]) := by decide +kernel
  rw [h] at hresult
  obtain ⟨hdisplay, hentries⟩ := Prod.mk.inj (Option.some.inj hresult)
  exact ⟨hdistinct, howned, by decide +kernel, next, entries, h, hanimated next entries h, hdisplay,
    hentries⟩

end Scene

end Animatic
