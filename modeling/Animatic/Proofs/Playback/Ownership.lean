import Animatic.Proofs.Playback.Changes
import Animatic.Proofs.Playback.Tracing

/-!
# Ownership

Only what is owned is displayed, and once; and what has been given up stays so, since no identity is
used again. Both hold whatever is done to a scene, in whatever order, also by functions that fire in
the middle of a frame.

* `Scene.Sound`: what holds of every scene.
* `Scene.Before`: what is given up for good.
* `relates_preserves`: every step keeps the one and the other.
-/

namespace Animatic

open Playback

namespace Scene

/-- What is displayed is owned and displayed once, and the identity of what is owned has been given
out. -/
structure Sound (scene : Scene) : Prop where
  distinct : scene.display.Nodup
  displayed : ∀ id ∈ scene.display, scene.contains id = true
  owned : ∀ id, scene.contains id = true → id.number < scene.slots.size

/-- An identity that has been given out and is not owned is not owned or displayed later. -/
structure Before (earlier later : Scene) : Prop where
  grown : earlier.slots.size ≤ later.slots.size
  gone : ∀ id, id.number < earlier.slots.size → earlier.contains id = false →
    later.contains id = false ∧ id ∉ later.display

/-- A scene is sound if an earlier one is, and what that one has given up is gone. -/
def Preserves (earlier later : Scene) : Prop := earlier.Sound → later.Sound ∧ Before earlier later

variable {scene next : Scene} {id : PrimitiveId}

/-! ## Slots -/

theorem number_lt_of_contains (h : scene.contains id = true) : id.number < scene.slots.size := by
  refine Nat.lt_of_not_le fun hge => ?_
  rw [contains, get?, Array.getElem?_eq_none hge] at h
  cases h

/-- The slot of one identity changes, and no other. -/
theorem get?_setSlot (id other : PrimitiveId) (slot : Option Primitive) :
    ({ scene with slots := scene.slots.setIfInBounds id.number slot } : Scene).get? other =
      if other = id ∧ id.number < scene.slots.size then slot else scene.get? other := by
  simp only [get?, Array.getElem?_setIfInBounds]
  by_cases hid : other = id
  · subst hid
    rw [if_pos rfl]
    by_cases hlt : other.number < scene.slots.size
    · rw [if_pos hlt, if_pos ⟨rfl, hlt⟩, Option.join_some]
    · rw [if_neg hlt, if_neg (fun h => hlt h.2), Array.getElem?_eq_none (Nat.le_of_not_lt hlt)]
  · have hnumber : ¬ id.number = other.number := by
      intro h
      cases id
      cases other
      exact hid (congrArg PrimitiveId.mk h.symm)
    rw [if_neg hnumber, if_neg (fun h => hid h.1)]

private theorem contains_setSlot (id other : PrimitiveId) (slot : Option Primitive) :
    ({ scene with slots := scene.slots.setIfInBounds id.number slot } : Scene).contains other =
      if other = id ∧ id.number < scene.slots.size then slot.isSome else scene.contains other := by
  rw [contains, get?_setSlot]
  split <;> rfl

theorem contains_put (h : scene.contains id = true) (p : Primitive) (other : PrimitiveId) :
    (scene.put id p).contains other = scene.contains other := by
  rw [put, contains_setSlot]
  split
  · rename_i hid
    rw [hid.1, h, Option.isSome_some]
  · rfl

theorem contains_disown (scene : Scene) (id other : PrimitiveId) :
    (scene.disown id).contains other = (scene.contains other && decide (other ≠ id)) := by
  rw [disown, contains_setSlot]
  by_cases hid : other = id
  · subst hid
    rw [decide_eq_false (fun h => h rfl), Bool.and_false]
    split
    · rfl
    · rename_i hsize
      exact Bool.eq_false_iff.mpr fun h => hsize ⟨rfl, number_lt_of_contains h⟩
  · rw [if_neg fun h => hid h.1, decide_eq_true hid, Bool.and_true]

theorem contains_insert (scene : Scene) (p : Primitive) (id : PrimitiveId) :
    (scene.insert p).2.contains id =
      (decide (id.number = scene.slots.size) || scene.contains id) := by
  simp only [insert, contains, get?, Array.getElem?_push]
  by_cases hid : id.number = scene.slots.size
  · rw [if_pos hid, decide_eq_true hid]
    rfl
  · rw [if_neg hid, decide_eq_false hid, Bool.false_or]

/-! ## Steps -/

theorem Preserves.refl (scene : Scene) : scene.Preserves scene := fun h =>
  ⟨h, Nat.le_refl _, fun id _ hgone => ⟨hgone, fun hmem => by
    rw [h.displayed id hmem] at hgone
    cases hgone⟩⟩

theorem Preserves.trans {first second third : Scene} (h : first.Preserves second)
    (h' : second.Preserves third) : first.Preserves third := by
  intro hfirst
  obtain ⟨hsecond, hbefore⟩ := h hfirst
  obtain ⟨hthird, hbefore'⟩ := h' hsecond
  refine ⟨hthird, Nat.le_trans hbefore.grown hbefore'.grown, fun id hlt hgone => ?_⟩
  exact hbefore'.gone id (Nat.lt_of_lt_of_le hlt hbefore.grown) (hbefore.gone id hlt hgone).1

/-- A step that gives out no identity and takes nothing in is fine if what it displays is. -/
private theorem preserves_of_fewer (hsize : next.slots.size = scene.slots.size)
    (howned : ∀ id, next.contains id = true → scene.contains id = true)
    (hdisplay : scene.Sound → next.display.Nodup ∧ ∀ id ∈ next.display, next.contains id = true) :
    scene.Preserves next := by
  intro hsound
  obtain ⟨hdistinct, hdisplayed⟩ := hdisplay hsound
  refine ⟨⟨hdistinct, hdisplayed, fun id => number_lt_of_contains⟩, Nat.le_of_eq hsize.symm,
    fun id _ hgone => ?_⟩
  have hnot : ¬ next.contains id = true := fun h => by
    rw [howned id h] at hgone
    cases hgone
  exact ⟨Bool.eq_false_iff.mpr hnot, fun hmem => hnot (hdisplayed id hmem)⟩

/-- The same is owned and displayed. -/
structure SameOwned (scene next : Scene) : Prop where
  display : next.display = scene.display
  size : next.slots.size = scene.slots.size
  contains : ∀ id, next.contains id = scene.contains id

theorem SameOwned.preserves (h : scene.SameOwned next) : scene.Preserves next := by
  refine preserves_of_fewer h.size (fun id hid => h.contains id ▸ hid) fun hsound => ?_
  rw [h.display]
  exact ⟨hsound.distinct, fun id hmem => (h.contains id).trans (hsound.displayed id hmem)⟩

theorem sameOwned_put (h : scene.contains id = true) (p : Primitive) :
    scene.SameOwned (scene.put id p) := ⟨rfl, Array.size_setIfInBounds, contains_put h p⟩

theorem preserves_insert (scene : Scene) (p : Primitive) : scene.Preserves (scene.insert p).2 := by
  intro hsound
  have hgrown : (scene.insert p).2.slots.size = scene.slots.size + 1 := Array.size_push _
  refine ⟨⟨hsound.distinct, fun id hmem => ?_, fun id => number_lt_of_contains⟩, ?_, ?_⟩
  · rw [contains_insert, hsound.displayed id hmem, Bool.or_true]
  · omega
  · intro id hlt hgone
    refine ⟨?_, fun hmem => ?_⟩
    · rw [contains_insert, hgone, Bool.or_false]
      exact decide_eq_false (Nat.ne_of_lt hlt)
    · rw [hsound.displayed id hmem] at hgone
      cases hgone

theorem preserves_show (h : scene.contains id = true) (hnew : id ∉ scene.display) :
    scene.Preserves { scene with display := scene.display ++ [id] } := by
  refine preserves_of_fewer rfl (fun _ hother => hother) fun hsound => ⟨?_, fun other hmem => ?_⟩
  · refine List.nodup_append.mpr ⟨hsound.distinct, List.pairwise_singleton _ _, ?_⟩
    intro shown hshown other hother hsame
    rw [List.mem_singleton.mp hother] at hsame
    exact hnew (hsame ▸ hshown)
  · rcases List.mem_append.mp hmem with hmem | hmem
    · exact hsound.displayed other hmem
    · rw [List.mem_singleton.mp hmem]
      exact h

theorem preserves_remove (scene : Scene) (id : PrimitiveId) : scene.Preserves
    { scene.disown id with display := scene.display.filter (· != id) } := by
  refine preserves_of_fewer Array.size_setIfInBounds (fun other hother => ?_) fun hsound =>
    ⟨hsound.distinct.filter _, fun other hmem => ?_⟩
  · have hkept : (scene.disown id).contains other = true := hother
    rw [contains_disown, Bool.and_eq_true] at hkept
    exact hkept.1
  · obtain ⟨hmem, hne⟩ := List.mem_filter.mp hmem
    change (scene.disown id).contains other = true
    rw [contains_disown, hsound.displayed other hmem, Bool.true_and]
    exact decide_eq_true (bne_iff_ne.mp hne)

/-- Whatever is changed, only a removal gives something up. -/
theorem Changed.preserves (h : scene.Changed next) : scene.Preserves next := by
  cases h with
  | keep => exact .refl scene
  | shown howned hnew => exact preserves_show howned hnew
  | removed howned => exact preserves_remove scene _
  | put howned p => exact (sameOwned_put howned p).preserves

/-- A display list in which a target takes the place of a source, or the last place. -/
private theorem replaced_display {display : List PrimitiveId} (hdistinct : display.Nodup)
    (source target : PrimitiveId) :
    let others := display.filter (· != target)
    let replaced :=
      if others.contains source then others.map fun id => if id = source then target else id
      else others ++ [target]
    replaced.Nodup ∧ ∀ id ∈ replaced, id = target ∨ id ∈ display ∧ id ≠ source := by
  intro others replaced
  have hothers : others.Nodup := hdistinct.filter _
  have hmem (id : PrimitiveId) (h : id ∈ others) : id ∈ display ∧ id ≠ target :=
    (List.mem_filter.mp h).imp_right bne_iff_ne.mp
  by_cases hsource : others.contains source = true
  · have hreplaced : replaced = others.map fun id => if id = source then target else id :=
      if_pos hsource
    rw [hreplaced]
    constructor
    · refine List.pairwise_map.mpr (hothers.imp_of_mem fun {a b} ha hb hab => ?_)
      have hatarget := (hmem a ha).2
      have hbtarget := (hmem b hb).2
      -- at most one of two different identities is the source
      split
      · split
        · rename_i ha hb
          exact absurd (ha.trans hb.symm) hab
        · exact hbtarget.symm
      · split
        · exact hatarget
        · exact hab
    · intro id hid
      obtain ⟨other, hother, rfl⟩ := List.mem_map.mp hid
      split
      · exact .inl rfl
      · rename_i hkept
        exact .inr ⟨(hmem other hother).1, hkept⟩
  · have hreplaced : replaced = others ++ [target] := if_neg hsource
    rw [hreplaced]
    constructor
    · refine List.nodup_append.mpr ⟨hothers, List.pairwise_singleton _ _, ?_⟩
      intro id hid other hother hsame
      rw [List.mem_singleton.mp hother] at hsame
      exact (hmem id hid).2 hsame
    · intro id hid
      rcases List.mem_append.mp hid with hid | hid
      · refine .inr ⟨(hmem id hid).1, fun hsame => hsource ?_⟩
        exact List.contains_iff_mem.mpr (hsame ▸ hid)
      · exact .inl (List.mem_singleton.mp hid)

/-- A replacement gives up its source and displays its target in the place of it. -/
theorem preserves_swap (scene : Scene) (source target : PrimitiveId) :
    scene.Preserves (scene.swap source target).1 := by
  rw [swap]
  split
  · exact .refl scene
  · rename_i old hold
    dsimp only
    split
    · exact .refl scene
    · rename_i new hnew
      have hkept := contains_of_get? hnew
      rw [contains_disown, Bool.and_eq_true, decide_eq_true_eq] at hkept
      obtain ⟨htarget, hne⟩ := hkept
      have howned (other : PrimitiveId) (p : Primitive) :
          ((scene.disown source).put target p).contains other =
            (scene.contains other && decide (other ≠ source)) := by
        rw [contains_put (contains_of_get? hnew), contains_disown]
      refine preserves_of_fewer ?_ (fun other hother => ?_) fun hsound => ?_
      · exact Array.size_setIfInBounds.trans Array.size_setIfInBounds
      · have hother := (howned other _).symm.trans hother
        rw [Bool.and_eq_true] at hother
        exact hother.1
      · obtain ⟨hdistinct, hplaces⟩ := replaced_display hsound.distinct source target
        refine ⟨hdistinct, fun other hother => (howned other _).trans ?_⟩
        rcases hplaces other hother with rfl | ⟨hmem, hsource⟩
        · rw [htarget, decide_eq_true hne, Bool.true_and]
        · rw [hsound.displayed other hmem, decide_eq_true hsource, Bool.true_and]

/-- Animation gives up the sources of the replacements that have become due, and nothing else. -/
theorem preserves_animate {dt : Float} {entries : List LogEntry}
    (h : scene.animate dt = .ok (next, entries)) : scene.Preserves next :=
  relates_animate .refl (fun _ _ _ => .trans)
    (fun _ _ p howned => (sameOwned_put howned p).preserves) preserves_swap h

theorem preserves_act {scheduled : List ScheduledAction} (h : scene.Act scheduled next) :
    scene.Preserves next := by
  cases h with
  | keep => exact .refl scene
  | insert p => exact preserves_insert scene p
  | put howned p => exact (sameOwned_put howned p).preserves
  | schedule delay effect => exact SameOwned.preserves ⟨rfl, rfl, fun _ => rfl⟩
  | scheduleAll delay effects => exact SameOwned.preserves ⟨rfl, rfl, fun _ => rfl⟩
  | delay hdelay =>
    rw [scheduleDelay] at hdelay
    split at hdelay
    · obtain rfl := Except.ok.inj hdelay
      exact SameOwned.preserves ⟨rfl, rfl, fun _ => rfl⟩
    · cases hdelay
  | finishRecording =>
    rw [finishRecording]
    split <;> exact SameOwned.preserves ⟨rfl, rfl, fun _ => rfl⟩
  | enact henact => exact (changed_enact henact).preserves

/-- Whatever happens to a scene, it stays sound, and what it gives up is gone. -/
theorem relates_preserves (gate : Scene → Float → Prop) : Course.Relates gate Preserves where
  refl := .refl
  trans _ _ _ := .trans
  act _ _ _ := preserves_act
  enterFrame _ _ _ := SameOwned.preserves ⟨rfl, rfl, fun _ => rfl⟩
  failed _ := SameOwned.preserves ⟨rfl, rfl, fun _ => rfl⟩
  animate _ _ _ _ := preserves_animate

theorem sound_empty (bounds : Bounds) : (empty bounds).Sound :=
  ⟨.nil, nofun, fun _ => number_lt_of_contains⟩

/-! ## Every run -/

/-- What is asked of a scene. -/
inductive Request where
  | insert (p : Primitive)
  | schedule (delay : Float) (effect : Effect)
  | scheduleAll (delay : Float) (effects : List Effect)
  | apply (effect : Effect)
  | remove (id : PrimitiveId)
  | finishRecording
  | update (dt : Float)

section

variable {σ : Type} (invoke : Invoker σ)

/-- Does what is asked; what cannot be done changes nothing. -/
def Request.perform : Request → Action σ Unit
  | insert p => changeScene fun scene => (scene.insert p).2
  | schedule delay effect => changeScene (·.schedule delay effect)
  | scheduleAll delay effects => changeScene (·.scheduleAll delay effects)
  | apply effect => discard (Playback.apply invoke effect)
  | remove id => do
    match (← Playback.scene).remove id with
    | .ok next => changeScene fun _ => next
    | .error _ => return ()
  | finishRecording => Playback.finishRecording
  | update dt => Playback.update invoke dt

/-- Does what is asked, one thing after the other. -/
def serve : List Request → Action σ Unit
  | [] => return ()
  | request :: rest => do
    request.perform invoke
    serve rest

/-- What is owned and displayed while a new scene is asked for something: in every course of it,
each scene is sound, and what has been given up in one is gone in the later ones. -/
structure OwnershipLasts (requests : List Request) (bounds : Bounds) (host : σ) : Prop where
  /-- All that a run does is seen. -/
  traced : ∀ world, (serve invoke requests).run (.initial bounds host) = .ok ((), world) →
    ∃ ms last, Course anyFrame (serve invoke requests) ⟨.initial bounds host, 0⟩ ms () last ∧
      last.world = world
  sound : ∀ ms last, Course anyFrame (serve invoke requests) ⟨.initial bounds host, 0⟩ ms () last →
    (∀ scene ∈ visited ⟨.initial bounds host, 0⟩ ms, scene.Sound) ∧ last.scene.Sound
  lasting : ∀ ms last,
    Course anyFrame (serve invoke requests) ⟨.initial bounds host, 0⟩ ms () last →
      Leads Before ⟨.initial bounds host, 0⟩ ms last

variable {invoke} (hinvoke : ∀ call, Traceable anyFrame (invoke call))

include hinvoke

private theorem traceable_perform (request : Request) :
    Traceable anyFrame (request.perform invoke) := by
  intro s
  cases request with
  | insert p => exact traceableAt_changeScene (f := fun scene => (scene.insert p).2) (.insert _ p)
  | schedule delay effect => exact traceable_schedule delay effect s
  | scheduleAll delay effects => exact traceable_scheduleAll delay effects s
  | apply effect => exact (traceable_apply hinvoke effect).map _ s
  | remove id =>
    refine traceableAt_scene_bind ?_
    split
    · rename_i next hremove
      have henact : s.scene.enact (.remove id) = .ok (next, []) := by rw [enact, hremove]; rfl
      exact traceableAt_changeScene (.enact henact)
    · exact traceable_pure _ s
  | finishRecording => exact traceable_finishRecording s
  | update dt => exact traceableAt_update hinvoke trivial

theorem traceable_serve (requests : List Request) :
    Traceable anyFrame (serve invoke requests) := by
  induction requests with
  | nil => exact traceable_pure ()
  | cons request rest ih => exact (traceable_perform hinvoke request).bind fun _ => ih

/-- Whatever is asked of a scene, with a host that acts on it in the same ways, what is displayed is
owned and displayed once, and what has been given up stays so. -/
theorem serve_ownershipLasts (requests : List Request) (bounds : Bounds) (host : σ) :
    OwnershipLasts invoke requests bounds host := by
  have hleads (ms : List (Moment σ)) (last : Stage σ)
      (hcourse : Course anyFrame (serve invoke requests) ⟨.initial bounds host, 0⟩ ms () last) :
      Leads Preserves ⟨.initial bounds host, 0⟩ ms last :=
    (relates_preserves anyFrame).closed.course hcourse
  have hsound (ms : List (Moment σ)) (last : Stage σ)
      (hcourse : Course anyFrame (serve invoke requests) ⟨.initial bounds host, 0⟩ ms () last) :
      ∀ scene ∈ visited ⟨.initial bounds host, 0⟩ ms, scene.Sound := by
    intro scene hscene
    rcases List.mem_cons.mp hscene with rfl | hscene
    · exact sound_empty bounds
    · have hstart := (List.pairwise_cons.mp (hleads ms last hcourse).pairwise).1 scene hscene
      exact (hstart (sound_empty bounds)).1
  refine ⟨fun world hrun => ?_, fun ms last hcourse => ?_, fun ms last hcourse => ?_⟩
  · exact traceable_serve hinvoke requests ⟨.initial bounds host, 0⟩ () world hrun
  · exact ⟨hsound ms last hcourse, ((hleads ms last hcourse).start (sound_empty bounds)).1⟩
  · have hall := hsound ms last hcourse
    refine ⟨(hleads ms last hcourse).pairwise.imp_of_mem fun hmem _ h => (h (hall _ hmem)).2, ?_⟩
    exact fun scene hscene => ((hleads ms last hcourse).last scene hscene (hall scene hscene)).2

end

/-- A host that gives up the first primitive and then lets a second pass. -/
def dropping : Invoker Nat := fun _ => do
  changeHost (· + 1)
  let outcome ← Playback.enact (.remove ⟨0⟩)
  Playback.update noScript 1
  return outcome

/-- A primitive that is being replaced when a function gives it up. -/
def dropRequests : List Request :=
  [.insert (.rect 1 1 true), .insert (.rect 2 2 true), .schedule 0 (.change (.show ⟨0⟩)),
    .schedule 1 (.change (.shapeTween ⟨0⟩ ⟨1⟩ 2 .linear true)),
    .schedule 1 (.invoke ⟨⟨"drop", [], [], .start⟩, []⟩), .finishRecording, .update 2]

theorem serve_dropping :
    (∀ call, Traceable anyFrame (dropping call)) ∧ OwnershipLasts dropping dropRequests ⟨8, 8⟩ 0 ∧
      ((serve dropping dropRequests).run (.initial ⟨8, 8⟩ 0)).toOption.any
        (fun (_, world) => world.host == 1 && !world.scene.contains ⟨0⟩) := by
  have hinvoke (call : Invocation) : Traceable anyFrame (dropping call) := by
    refine (traceable_changeHost _).bind fun _ => (traceable_enact _).bind fun outcome => ?_
    refine Traceable.bind (fun s => traceableAt_update ?_ trivial) fun _ => traceable_pure outcome
    exact fun _ => traceable_pure _
  exact ⟨hinvoke, serve_ownershipLasts hinvoke dropRequests ⟨8, 8⟩ 0, by decide +kernel⟩

end Scene

end Animatic
