import Animatic.Proofs.Session.Holding
import Animatic.Proofs.Session.Rules

/-!
# What handlers do

A standard command other than `Wait` always ends, and it acts on the scene in one way only: it puts
something on the timeline, after the delay that it is given. Its value holds no object but those
that it is called with. A construction takes at most one primitive into the scene, with the
properties of the new object applied to it.

* `Idle`: what looking, logging, printing and drawing random numbers change.
* `Booking`: what a call can put on the timeline.
* `Standard.handles_method`, `Standard.handles_global`: what calls do.
* `Session.construct_run`: what a construction does.
-/

namespace Animatic

open Play Playback

variable {α β : Type}

/-! ## Computations that leave the scene alone -/

/-- The scene is the same, and of the session all but the counts, the random source and what has
been printed. -/
structure Idle (world next : World Session) : Prop where
  scene : next.scene = world.scene
  host : ∃ misses random output, next.host = { world.host with misses, random, output }

theorem Idle.refl (world : World Session) : Idle world world := ⟨rfl, _, _, _, rfl⟩

theorem Idle.trans {world middle next : World Session} (h : Idle world middle)
    (h' : Idle middle next) : Idle world next := by
  obtain ⟨_, _, _, hhost⟩ := h.host
  obtain ⟨misses, random, output, hhost'⟩ := h'.host
  exact ⟨h'.scene.trans h.scene, misses, random, output, by rw [hhost', hhost]⟩

/-- A computation that always ends and does no more than that. -/
def Idles (m : Play α) : Prop :=
  ∀ world, ∃ a next, m.run world = .ok (a, next) ∧ Idle world next

theorem run_bind_of_eq_ok {m : Play α} {f : α → Play β} {world middle : World Session} {a : α}
    (h : m.run world = .ok (a, middle)) : (m >>= f).run world = (f a).run middle := by
  rw [StateT.run_bind, h]
  rfl

theorem idles_pure (a : α) : Idles (pure a) := fun world => ⟨a, world, rfl, .refl world⟩

theorem Idles.bind {m : Play α} {f : α → Play β} (hm : Idles m) (hf : ∀ a, Idles (f a)) :
    Idles (m >>= f) := fun world => by
  obtain ⟨a, middle, hrun, hidle⟩ := hm world
  obtain ⟨b, next, hrun', hidle'⟩ := hf a middle
  exact ⟨b, next, (run_bind_of_eq_ok hrun).trans hrun', hidle.trans hidle'⟩

theorem idles_scene : Idles Playback.scene := fun world => ⟨_, world, rfl, .refl world⟩

/-- Looking at the world and logging are idle. -/
theorem idles_rules : QuietRules Idles where
  pure := idles_pure
  bind := .bind
  look _ world := ⟨_, world, rfl, .refl world⟩
  session world := ⟨_, world, rfl, .refl world⟩
  log _ _ := ⟨(), _, rfl, rfl, _, _, _, rfl⟩
  logOne _ _ _ := ⟨(), _, rfl, rfl, _, _, _, rfl⟩

theorem idles_print (line : String) : Idles (print line) :=
  (idles_rules.logOne _ _).bind fun _ _ => ⟨(), _, rfl, rfl, _, _, _, rfl⟩

/-! ## Bookings -/

/-- What a call of a standard command can put on the timeline. -/
inductive Booking where
  /-- What an operation on a primitive does. -/
  | change (change : Change)
  /-- What is done to several primitives, or in several steps. -/
  | changes (changes : List Change)
  /-- A call of a function. -/
  | call (function : Script.Function)

namespace Booking

/-- The delay that a call is given: `Schedule` takes it as its first argument, all others by
`start`. -/
def delay (arguments : Arguments) : Booking → Float
  | .call _ => (arguments.number? 0 "delay").getD 0
  | _ => Standard.startDelay arguments

/-- The effects that are put on the timeline. -/
def effects (arguments : Arguments) : Booking → List Effect
  | .change single => [.change single]
  | .changes all => all.map .change
  | .call function => [.invoke ⟨function, arguments.positional.drop 2⟩]

/-- A scene behind a booking. -/
def enter (arguments : Arguments) (booking : Booking) (scene : Scene) : Scene :=
  match booking with
  | .change single => scene.schedule (booking.delay arguments) (.change single)
  | .changes all => scene.scheduleAll (booking.delay arguments) (all.map .change)
  | .call function =>
    scene.schedule (booking.delay arguments) (.invoke ⟨function, arguments.positional.drop 2⟩)

end Booking

/-- What a call leaves behind: at most one booking. -/
inductive Handled (arguments : Arguments) (world : World Session) : World Session → Prop where
  | idle {next : World Session} (h : Idle world next) : Handled arguments world next
  | booked {next : World Session} (h : Idle world next) (booking : Booking) :
      Handled arguments world { next with scene := booking.enter arguments next.scene }

/-- A call that always ends, leaves at most one booking, and has a value with objects of one kind
only. -/
def Handles (P : ObjectRef → Prop) (arguments : Arguments) (m : Play Value) : Prop :=
  ∀ world, ∃ value next, m.run world = .ok (value, next) ∧ Handled arguments world next ∧
    value.Within P

section

variable {P : ObjectRef → Prop} {arguments : Arguments}

theorem Handled.of_idle {world middle next : World Session} (h : Idle world middle)
    (h' : Handled arguments middle next) : Handled arguments world next := by
  cases h' with
  | idle hidle => exact .idle (h.trans hidle)
  | booked hidle booking => exact .booked (h.trans hidle) booking

theorem handles_pure {value : Value} (h : value.Within P) : Handles P arguments (pure value) :=
  fun world => ⟨value, world, rfl, .idle (.refl world), h⟩

theorem Idles.bind_handles {m : Play α} {f : α → Play Value} (hm : Idles m)
    (hf : ∀ a, Handles P arguments (f a)) : Handles P arguments (m >>= f) := fun world => by
  obtain ⟨a, middle, hrun, hidle⟩ := hm world
  obtain ⟨value, next, hrun', hhandled, hvalue⟩ := hf a middle
  exact ⟨value, next, (run_bind_of_eq_ok hrun).trans hrun', hhandled.of_idle hidle, hvalue⟩

/-- A call without a handler. -/
theorem handles_miss (what : String) : Handles P arguments (miss what) :=
  Idles.bind_handles (fun _ => ⟨(), _, rfl, rfl, _, _, _, rfl⟩) fun _ =>
    (idles_rules.logOne _ _).bind_handles fun _ => handles_pure (Value.within_of_objects_nil rfl)

theorem Booking.handles (booking : Booking) {value : Value} (h : value.Within P) :
    Handles P arguments (changeScene (booking.enter arguments) >>= fun _ => pure value) :=
  fun world => ⟨value, _, rfl, .booked (.refl world) booking, h⟩

end

namespace Standard

variable {P : ObjectRef → Prop} {arguments : Arguments}

/-! ## Methods -/

/-- The delay of a timing is the one that is given by `start`. -/
private theorem handles_timing_bind {durationAt : Nat} {f : Timing → Play Value}
    (h : ∀ timing : Timing, timing.delay = startDelay arguments → Handles P arguments (f timing)) :
    Handles P arguments (timing arguments durationAt >>= f) := by
  rw [timing, bind_assoc]
  refine idles_rules.session.bind_handles fun session => ?_
  rw [bind_assoc]
  refine (idles_rules.easingOf _ _).bind_handles fun easing => ?_
  rw [pure_bind]
  exact h _ rfl

private theorem handles_onPrimitive {object : ObjectRef} {operation : String}
    {act : PrimitiveId → Play Value} (h : ∀ id, Handles P arguments (act id)) :
    Handles P arguments (onPrimitive object operation act) := by
  refine (idles_rules.hostOf object operation).bind_handles fun host => ?_
  cases host with
  | none => exact handles_pure (Value.within_of_objects_nil rfl)
  | some id => exact h id

section

variable {object : ObjectRef} (hobject : P object)

include hobject

private theorem handles_tweening (operation : String)
    (targets : Arguments → List (Channel × Float)) :
    Handles P arguments (tweening operation targets object arguments) := by
  refine handles_onPrimitive fun id => handles_timing_bind fun timing hdelay => ?_
  rw [hdelay]
  exact (Booking.change _).handles (Value.within_object.mpr hobject)

private theorem handles_changing (operation : String)
    (change : PrimitiveId → Arguments → Change) :
    Handles P arguments (changing operation change object arguments) :=
  handles_onPrimitive fun id =>
    (Booking.change (change id arguments)).handles (Value.within_object.mpr hobject)

private theorem handles_draw : Handles P arguments (draw object arguments) := by
  refine handles_onPrimitive fun id => handles_timing_bind fun timing hdelay => ?_
  rw [hdelay]
  exact (Booking.changes _).handles (Value.within_object.mpr hobject)

omit hobject in
private theorem handles_remove : Handles P arguments (remove object arguments) :=
  handles_onPrimitive fun id =>
    (Booking.change (.remove id)).handles (Value.within_of_objects_nil rfl)

variable (harguments : arguments.Within P)

include harguments

private theorem handles_morphing (operation : String) (replace : Bool) :
    Handles P arguments (morphing operation replace object arguments) := by
  refine handles_onPrimitive fun source => ?_
  split
  · refine (idles_rules.logOne _ _).bind_handles fun _ => ?_
    exact handles_pure (Value.within_of_objects_nil rfl)
  · rename_i goal hgoal
    refine handles_onPrimitive fun target => handles_timing_bind fun timing hdelay => ?_
    rw [hdelay]
    refine (Booking.change _).handles (Value.within_object.mpr ?_)
    split
    · exact harguments.object_of_get? hgoal
    · exact hobject

/-- What a method of a primitive does: it gives back its object or its target, or null. -/
theorem handles_method (operation : Operation) :
    Handles P arguments (method operation object arguments) := by
  cases operation with
  | draw => exact handles_draw hobject
  | morph | morphTo => exact handles_morphing hobject harguments _ _
  | setColor | setPosition | velocity => rw [method]; exact handles_changing hobject _ _
  | remove => exact handles_remove
  | _ => exact handles_tweening hobject _ _

end

/-! ## Globals -/

private theorem handles_add (harguments : arguments.Within P) (wait : Float → Play Unit) :
    Handles P arguments (add wait arguments) := by
  refine (idles_rules.hostsOfAll "Add" _).bind_handles fun ids => ?_
  split
  · rename_i single hsingle
    have hmem : single ∈ arguments.positional := hsingle ▸ List.mem_singleton_self single
    exact (Booking.changes (ids.map .show)).handles (harguments.positional single hmem)
  · exact (Booking.changes (ids.map .show)).handles (Value.within_array.mpr harguments.positional)

private theorem handles_scheduleCall (wait : Float → Play Unit) :
    Handles P arguments (scheduleCall wait arguments) := by
  refine (idles_rules.scheduledFunction _).bind_handles fun function => ?_
  cases function with
  | none => exact handles_pure (Value.within_of_objects_nil rfl)
  | some function => exact (Booking.call function).handles (Value.within_of_objects_nil rfl)

private theorem handles_random (wait : Float → Play Unit) :
    Handles P arguments (random wait arguments) := by
  unfold random
  dsimp only
  split
  · exact handles_pure (Value.within_of_objects_nil rfl)
  · split
    · exact handles_pure (Value.within_of_objects_nil rfl)
    · refine idles_rules.session.bind_handles fun session => ?_
      refine Idles.bind_handles (fun _ => ⟨(), _, rfl, rfl, _, _, _, rfl⟩) fun _ => ?_
      exact handles_pure (Value.within_of_objects_nil rfl)

private theorem handles_rgb (wait : Float → Play Unit) :
    Handles P arguments (rgb wait arguments) := by
  refine handles_pure (Value.within_array.mpr fun value hmem => ?_)
  obtain ⟨_, -, rfl⟩ := List.mem_map.mp hmem
  exact Value.within_of_objects_nil rfl

/-- What a global command does, but for `Wait`: it gives back its arguments, or a value without
objects. -/
theorem handles_global {entry : String × Global} (h : entry ∈ globals) (hwait : entry.2 ≠ wait)
    (harguments : arguments.Within P) (waiting : Float → Play Unit) :
    Handles P arguments (entry.2 waiting arguments) := by
  have hnone {value : Value} (h : value.objects = []) : value.Within P :=
    Value.within_of_objects_nil h
  simp only [globals, List.mem_cons, List.not_mem_nil, or_false] at h
  rcases h with rfl | rfl | rfl | rfl | rfl | rfl | rfl | rfl | rfl | rfl
  · exact handles_add harguments waiting
  · exact (idles_rules.hostsOfAll "Remove" _).bind_handles fun ids =>
      (Booking.changes (ids.map .remove)).handles (hnone rfl)
  · exact absurd rfl hwait
  · exact handles_scheduleCall waiting
  · exact (idles_print _).bind_handles fun _ => handles_pure (hnone rfl)
  · exact (idles_print _).bind_handles fun _ => handles_pure (hnone rfl)
  · exact handles_random waiting
  · exact handles_pure (hnone rfl)
  · exact handles_rgb waiting
  · exact idles_scene.bind_handles fun scene => handles_pure (hnone rfl)

end Standard

/-! ## Constructions -/

/-- What a construction takes into a scene: nothing, or one primitive under the next identity. -/
inductive Scene.Built : Scene → Option PrimitiveId → Scene → Prop where
  | plain (scene : Scene) : Built scene none scene
  | primitive (scene : Scene) (p : Primitive) :
      Built scene (some ⟨scene.slots.size⟩) (scene.insert p).2

/-- What a construction with some properties leaves behind. -/
structure Constructed (properties : PropertyMap) (world : World Session) (object : ObjectRef)
    (next : World Session) : Prop where
  built : world.scene.Built object.host next.scene
  origin : object.origin = .session
  number : object.number = world.host.objects.size + 1
  host : next.host =
    { world.host with objects := world.host.objects.push ⟨object, properties⟩ }

/-- A primitive that has just been taken in is changed as if it had been taken in so. -/
theorem Scene.put_insert (scene : Scene) (p q : Primitive) :
    (scene.insert p).2.put ⟨scene.slots.size⟩ q = (scene.insert q).2 := by
  have hslots : (scene.slots.push (some p)).setIfInBounds scene.slots.size (some q) =
      scene.slots.push (some q) := by
    grind
  rw [insert, insert, put]
  simp only [hslots]

theorem Scene.get?_insert (scene : Scene) (p : Primitive) :
    (scene.insert p).2.get? ⟨scene.slots.size⟩ = some p := by
  simp only [insert, get?, Array.getElem?_push_size, Option.join_some]

private theorem Scene.Built.changed {before scene : Scene} {id : PrimitiveId}
    (h : before.Built (some id) scene) (f : Primitive → Primitive) :
    before.Built (some id) (match scene.get? id with
      | some p => scene.put id (f p)
      | none => scene) := by
  obtain _ | p := h
  rw [get?_insert]
  dsimp only
  rw [put_insert]
  exact .primitive before (f p)

namespace Session

private theorem buildHost_run (typeName : String) (positional : List Value)
    (properties : PropertyMap) (world : World Session) :
    ∃ host next, (buildHost typeName positional properties).run world = .ok (host, next) ∧
      next.host = world.host ∧ world.scene.Built host next.scene := by
  rw [buildHost, run_bind_of_eq_ok (m := session) rfl, run_bind_of_eq_ok rfl]
  split
  · exact ⟨_, _, rfl, rfl, .primitive _ _⟩
  · exact ⟨_, _, rfl, rfl, .plain _⟩
  · exact ⟨_, _, rfl, rfl, .plain _⟩

private theorem commonProperties_run {object : ObjectRef} {before : Scene}
    {world : World Session} (h : before.Built object.host world.scene) :
    ∃ next, (Standard.commonProperties object).run world = .ok ((), next) ∧
      next.host = world.host ∧ before.Built object.host next.scene := by
  rw [Standard.commonProperties]
  split
  · exact ⟨world, rfl, rfl, h⟩
  · rename_i id hid
    rw [hid] at h ⊢
    exact ⟨_, rfl, rfl, h.changed _⟩

private theorem runHook_run (typeName : String) {object : ObjectRef} {before : Scene}
    {world : World Session} (h : before.Built object.host world.scene) :
    ∃ next, (runHook Standard.commands typeName object).run world = .ok ((), next) ∧
      next.host = world.host ∧ before.Built object.host next.scene := by
  rw [runHook]
  split
  · rename_i hook hfound
    obtain rfl := Standard.eq_of_hook? hfound
    exact commonProperties_run h
  · exact ⟨world, rfl, rfl, h⟩

/-- What a construction does: an object is added, and its primitive taken into the scene if it has
one. -/
theorem construct_run (typeName : String) (arguments : Arguments) (properties : PropertyMap)
    (world : World Session) :
    ∃ object next, (construct Standard.commands typeName arguments properties).run world =
        .ok (.object object, next) ∧
      Constructed (constructionProperties (Construct.find? typeName) arguments properties) world
        object next := by
  let given := constructionProperties (Construct.find? typeName) arguments properties
  let named := ((Construct.find? typeName).map (·.typeName)).getD typeName
  obtain ⟨host, made, hbuild, hhost, hbuilt⟩ :=
    buildHost_run named arguments.positional given world
  let object : ObjectRef := ⟨.session, world.host.objects.size + 1, named, host⟩
  let listed : World Session :=
    { made with host := { made.host with objects := made.host.objects.push ⟨object, given⟩ } }
  obtain ⟨next, hhook, hnext, hscene⟩ :=
    @runHook_run named object world.scene listed hbuilt
  refine ⟨object, next, ?_, hscene, rfl, rfl, ?_⟩
  · rw [construct, run_bind_of_eq_ok (m := session) rfl, run_bind_of_eq_ok hbuild,
      run_bind_of_eq_ok rfl, run_bind_of_eq_ok hhook]
    rfl
  · rw [hnext, ← hhost]

end Session

end Animatic
