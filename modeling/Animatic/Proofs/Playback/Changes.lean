import Animatic.Scene.Basic

/-!
# What changes and animation do to a scene

Each step edits the primitives and the display list in one of a few ways, and nothing else.

* `Scene.Changed`, `Scene.changed_enact`: what a change can do.
* `Scene.relates_animate`: what animation does, one primitive or one replacement at a time.
* `Scene.SameTime`: neither has a part in time.
-/

namespace Animatic

/-- What a computation in two steps gives comes from its steps. -/
theorem of_bind_eq_ok {ε α β : Type} {x : Except ε α} {f : α → Except ε β} {b : β}
    (h : (x >>= f) = .ok b) : ∃ a, x = .ok a ∧ f a = .ok b := by
  cases x with
  | error e => cases h
  | ok a => exact ⟨a, rfl, h⟩

namespace Scene

variable {scene next : Scene} {id : PrimitiveId}

theorem contains_of_get? {p : Primitive} (h : scene.get? id = some p) :
    scene.contains id = true := by rw [contains, h, Option.isSome_some]

theorem contains_of_require {p : Primitive} (h : scene.require id = .ok p) :
    scene.contains id = true := by
  unfold require at h
  split at h
  · rename_i hget
    exact contains_of_get? hget
  · cases h

/-! ## Changes -/

/-- What a change that can be carried out does to a scene. -/
inductive Changed : Scene → Scene → Prop where
  | keep (scene : Scene) : Changed scene scene
  | shown {scene : Scene} {id : PrimitiveId} (howned : scene.contains id = true)
      (hnew : id ∉ scene.display) : Changed scene { scene with display := scene.display ++ [id] }
  | removed {scene : Scene} {id : PrimitiveId} (howned : scene.contains id = true) :
      Changed scene { scene.disown id with display := scene.display.filter (· != id) }
  | put {scene : Scene} {id : PrimitiveId} (howned : scene.contains id = true) (p : Primitive) :
      Changed scene (scene.put id p)

/-- What asks for a primitive first succeeds only if it is owned. -/
private theorem of_require_bind {α : Type} {f : Primitive → Except SceneError α} {a : α}
    (h : (scene.require id >>= f) = .ok a) : ∃ p, scene.contains id = true ∧ f p = .ok a := by
  obtain ⟨p, hp, h⟩ := of_bind_eq_ok h
  exact ⟨p, contains_of_require hp, h⟩

theorem changed_remove (h : scene.remove id = .ok next) : scene.Changed next := by
  obtain ⟨_, howned, h⟩ := of_require_bind h
  obtain rfl := Except.ok.inj h
  exact .removed howned

theorem changed_enact {change : Change} {entries : List LogEntry}
    (h : scene.enact change = .ok (next, entries)) : scene.Changed next := by
  match change, h with
  | .show id, h =>
    obtain ⟨_, howned, h⟩ := of_require_bind h
    obtain ⟨rfl, -⟩ := Prod.mk.inj (Except.ok.inj h)
    split
    · exact .keep scene
    · rename_i hnew
      exact .shown howned fun hmem => hnew (List.contains_iff_mem.mpr hmem)
  | .remove id, h =>
    obtain ⟨removed, hremove, h⟩ := of_bind_eq_ok h
    obtain ⟨rfl, -⟩ := Prod.mk.inj (Except.ok.inj h)
    exact changed_remove hremove
  | .shapeTween source target duration easing replace, h =>
    obtain ⟨_, -, h⟩ := of_require_bind h
    obtain ⟨_, howned, h⟩ := of_require_bind h
    obtain ⟨rfl, -⟩ := Prod.mk.inj (Except.ok.inj h)
    exact .put howned _
  | .tween id _ _ _, h | .set id _, h | .setVelocity id _ _, h =>
    obtain ⟨_, howned, h⟩ := of_require_bind h
    obtain ⟨rfl, -⟩ := Prod.mk.inj (Except.ok.inj h)
    exact .put howned _

/-! ## Animation -/

section

variable {R : Scene → Scene → Prop} (hrefl : ∀ scene, R scene scene)
  (htrans : ∀ first second third, R first second → R second third → R first third)

include hrefl htrans

private theorem relates_advanceAll
    (hput : ∀ (scene : Scene) id p, scene.contains id = true → R scene (scene.put id p))
    {dt : Float} {ids : List PrimitiveId} {swaps : List (PrimitiveId × PrimitiveId)}
    (h : advanceAll dt ids scene = .ok (next, swaps)) : R scene next := by
  induction ids generalizing scene swaps with
  | nil =>
    obtain ⟨rfl, -⟩ := Prod.mk.inj (Except.ok.inj h)
    exact hrefl _
  | cons id rest ih =>
    rw [advanceAll] at h
    split at h
    · exact ih h
    · rename_i p hp
      obtain ⟨⟨moved, commit⟩, -, h⟩ := of_bind_eq_ok h
      obtain ⟨⟨last, others⟩, hrest, h⟩ := of_bind_eq_ok h
      obtain ⟨rfl, -⟩ := Prod.mk.inj (Except.ok.inj h)
      exact htrans _ _ _ (hput scene id moved (contains_of_get? hp)) (ih hrest)

private theorem relates_swapAll
    (hswap : ∀ (scene : Scene) source target, R scene (scene.swap source target).1)
    (swaps : List (PrimitiveId × PrimitiveId)) (scene : Scene) :
    R scene (swapAll swaps scene).1 := by
  induction swaps generalizing scene with
  | nil => exact hrefl scene
  | cons swap rest ih => exact htrans _ _ _ (hswap scene swap.1 swap.2) (ih _)

/-- Primitives move one after the other, and then replacements are carried out one after the
other. -/
theorem relates_animate
    (hput : ∀ (scene : Scene) id p, scene.contains id = true → R scene (scene.put id p))
    (hswap : ∀ (scene : Scene) source target, R scene (scene.swap source target).1) {dt : Float}
    {entries : List LogEntry} (h : scene.animate dt = .ok (next, entries)) : R scene next := by
  obtain ⟨⟨moved, swaps⟩, hmoved, h⟩ := of_bind_eq_ok h
  obtain rfl : (swapAll swaps moved).1 = next := congrArg Prod.fst (Except.ok.inj h)
  exact htrans _ _ _ (relates_advanceAll hrefl htrans hput hmoved)
    (relates_swapAll hrefl htrans hswap swaps moved)

end

/-! ## What has no part in time -/

/-- The clock, what is pending and what has failed are the same. -/
structure SameTime (scene next : Scene) : Prop where
  timeline : next.timeline = scene.timeline
  phase : next.phase = scene.phase
  offset : next.offset = scene.offset
  clock : next.clock = scene.clock
  failures : next.failures = scene.failures

theorem SameTime.refl (scene : Scene) : scene.SameTime scene := ⟨rfl, rfl, rfl, rfl, rfl⟩

theorem SameTime.trans {last : Scene} (h : scene.SameTime next) (h' : next.SameTime last) :
    scene.SameTime last :=
  ⟨h'.timeline.trans h.timeline, h'.phase.trans h.phase, h'.offset.trans h.offset,
    h'.clock.trans h.clock, h'.failures.trans h.failures⟩

theorem Changed.sameTime (h : scene.Changed next) : scene.SameTime next := by
  cases h <;> exact ⟨rfl, rfl, rfl, rfl, rfl⟩

private theorem sameTime_swap (scene : Scene) (source target : PrimitiveId) :
    scene.SameTime (scene.swap source target).1 := by
  rw [swap]
  split
  · exact .refl scene
  · dsimp only
    split <;> exact ⟨rfl, rfl, rfl, rfl, rfl⟩

theorem sameTime_animate {dt : Float} {entries : List LogEntry}
    (h : scene.animate dt = .ok (next, entries)) : scene.SameTime next :=
  relates_animate SameTime.refl (fun _ _ _ h h' => h.trans h')
    (fun _ _ _ _ => ⟨rfl, rfl, rfl, rfl, rfl⟩) sameTime_swap h

end Scene

end Animatic
