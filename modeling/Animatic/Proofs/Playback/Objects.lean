import Mathlib
import Animatic.Proofs.Playback.Evaluation
import Animatic.Proofs.Session.Recording

/-!
# Objects and their primitives

A session lists the objects that it has constructed, and nothing leaves the list. Objects and
primitives are numbered apart, yet in step: the primitives that a scene has ever taken in belong to
the objects of the list, one each, in the same order. What a script holds of objects, wherever it
holds them, are objects of the list.

* `World.Coherent`: what holds of the list in a world.
* `Contract.objects_lawful`: what a script does keeps it.
* `Contract.safe_update`: so does a frame of playback.
* `World.Coherent.existsUnique_owner`: a primitive belongs to one object.
* `Player.play_objects`: a player that has recorded a script and played some steps.
-/

namespace Animatic

open Play Playback

/-- The objects of a session, oldest first. -/
def Session.refs (session : Session) : List ObjectRef := session.objects.toList.map (·.ref)

/-- Every object in the arguments of a call has a property. -/
def Effect.Within (P : ObjectRef → Prop) : Effect → Prop
  | .change _ => True
  | .invoke call => ∀ value ∈ call.arguments, value.Within P

/-- What holds of the objects of a session and of what is held of them. -/
structure World.Coherent (world : World Session) : Prop where
  /-- Objects are numbered as they are listed, from one on. -/
  numbered : ∀ (i : Nat) (object : ObjectRef), world.host.refs[i]? = some object →
    object.origin = .session ∧ object.number = i + 1
  /-- The primitives of the listed objects are all that the scene has ever taken in, each once and
  in order. -/
  hosts : world.host.refs.filterMap (·.host) =
    (List.range world.scene.slots.size).map PrimitiveId.mk
  scopes : world.host.scopes.Within (· ∈ world.host.refs)
  properties : ∀ entry ∈ world.host.objects.toList,
    entry.properties.Within (· ∈ world.host.refs)
  pending : ∀ action ∈ world.scene.timeline.actions, action.effect.Within (· ∈ world.host.refs)
  visitors : world.host.visitors = []

/-- The list of objects is coherent and grows behind its end. -/
def Contract.objects : Contract where
  Inv := World.Coherent
  Leads world next := world.host.refs <+: next.host.refs
  Known world object := object ∈ world.host.refs
  Faulty := True

section

variable {world next : World Session}

/-! ## Bookings -/

theorem Effect.Within.imp {P Q : ObjectRef → Prop} {effect : Effect} (h : effect.Within P)
    (himp : ∀ object, P object → Q object) : effect.Within Q := by
  cases effect with
  | change _ => trivial
  | invoke call => exact fun value hmem => (h value hmem).imp himp

namespace Booking

private theorem slots_enter (arguments : Arguments) (booking : Booking) (scene : Scene) :
    (booking.enter arguments scene).slots = scene.slots := by cases booking <;> rfl

private theorem mem_insert {timeline : Timeline} {action a : ScheduledAction}
    (h : a ∈ (timeline.insert action).actions) : a ∈ timeline.actions ∨ a = action := by
  rcases List.mem_append.mp h with h | h
  · exact .inl (List.mem_of_mem_take h)
  · rcases List.mem_cons.mp h with h | h
    · exact .inr h
    · exact .inl (List.mem_of_mem_drop h)

private theorem mem_enter {arguments : Arguments} {booking : Booking} {scene : Scene}
    {action : ScheduledAction} (h : action ∈ (booking.enter arguments scene).timeline.actions) :
    action ∈ scene.timeline.actions ∨ action.effect ∈ booking.effects arguments := by
  cases booking with
  | change _ | call _ =>
    refine (mem_insert h).imp_right fun h => ?_
    rw [h]
    exact List.mem_singleton_self _
  | changes all =>
    rcases List.mem_append.mp (List.mem_mergeSort.mp h) with h | h
    · exact .inl h
    · obtain ⟨effect, hmem, rfl⟩ := List.mem_map.mp h
      exact .inr hmem

private theorem within_effects {P : ObjectRef → Prop} {arguments : Arguments}
    (harguments : arguments.Within P) {booking : Booking} {effect : Effect}
    (h : effect ∈ booking.effects arguments) : effect.Within P := by
  cases booking with
  | change single =>
    obtain rfl := List.mem_singleton.mp h
    trivial
  | changes all =>
    obtain ⟨_, -, rfl⟩ := List.mem_map.mp h
    trivial
  | call function =>
    obtain rfl := List.mem_singleton.mp h
    exact fun value hmem => harguments.positional value (List.mem_of_mem_drop hmem)

end Booking

/-! ## Changed entries -/

private theorem refs_modify (objects : Array ScriptObject) (i : Nat)
    {f : ScriptObject → ScriptObject} (hf : ∀ entry, (f entry).ref = entry.ref) :
    (objects.modify i f).toList.map (·.ref) = objects.toList.map (·.ref) := by
  refine List.ext_getElem? fun j => ?_
  rw [Array.toList_modify, List.getElem?_map, List.getElem?_map, List.getElem?_modify]
  cases objects.toList[j]? with
  | none => rfl
  | some entry =>
    refine congrArg some ?_
    dsimp only
    split
    · exact hf entry
    · rfl

private theorem mem_modify {objects : Array ScriptObject} {i : Nat}
    {f : ScriptObject → ScriptObject} {entry : ScriptObject}
    (h : entry ∈ (objects.modify i f).toList) :
    entry ∈ objects.toList ∨ ∃ old ∈ objects.toList, entry = f old := by
  obtain ⟨j, hj⟩ := List.getElem?_of_mem h
  rw [Array.toList_modify, List.getElem?_modify] at hj
  obtain ⟨old, hold, hentry⟩ := Option.map_eq_some_iff.mp hj
  have hmem := List.mem_of_getElem? hold
  split at hentry
  · exact .inr ⟨old, hmem, hentry.symm⟩
  · exact .inl (hentry ▸ hmem)

/-! ## Steps of evaluation -/

private theorem getElem?_concat {α : Type} {items : List α} {last a : α} {i : Nat}
    (h : (items ++ [last])[i]? = some a) : items[i]? = some a ∨ i = items.length ∧ a = last := by
  grind

private theorem hosts_of_built {scene built : Scene} {host : Option PrimitiveId}
    (h : scene.Built host built) :
    (List.range scene.slots.size).map PrimitiveId.mk ++ host.toList =
        (List.range built.slots.size).map PrimitiveId.mk ∧
      built.timeline = scene.timeline := by
  cases h with
  | plain => exact ⟨List.append_nil _, rfl⟩
  | primitive p =>
    refine ⟨?_, rfl⟩
    rw [Scene.insert, Array.size_push, List.range_succ, List.map_append]
    rfl

namespace World.Coherent

theorem origin_eq (h : world.Coherent) {object : ObjectRef} (hmem : object ∈ world.host.refs) :
    object.origin = .session := by
  obtain ⟨i, hi⟩ := List.getElem?_of_mem hmem
  exact (h.numbered i object hi).1

theorem propertiesOf (h : world.Coherent) (object : ObjectRef) :
    (world.host.propertiesOf object).Within (· ∈ world.host.refs) := by
  unfold Session.propertiesOf
  split
  · cases hentry : world.host.objects[object.number - 1]? with
    | none => exact PropertyMap.within_empty
    | some entry =>
      exact h.properties entry (Array.mem_toList_iff.mpr (Array.mem_of_getElem? hentry))
  · rw [h.visitors]
    exact PropertyMap.within_empty

/-- Nothing happens to the objects and their primitives. -/
private theorem keeps (h : world.Coherent) (hrefs : next.host.refs = world.host.refs)
    (hsize : next.scene.slots.size = world.scene.slots.size)
    (hscopes : next.host.scopes.Within (· ∈ world.host.refs))
    (hproperties : ∀ entry ∈ next.host.objects.toList,
      entry.properties.Within (· ∈ world.host.refs))
    (hpending : ∀ action ∈ next.scene.timeline.actions,
      action.effect.Within (· ∈ world.host.refs))
    (hvisitors : next.host.visitors = []) : Contract.objects.Keeps world next where
  inv :=
    { numbered := by rw [hrefs]; exact h.numbered
      hosts := by rw [hrefs, hsize]; exact h.hosts
      scopes := by rw [hrefs]; exact hscopes
      properties := by rw [hrefs]; exact hproperties
      pending := by rw [hrefs]; exact hpending
      visitors := hvisitors }
  leads := by
    change world.host.refs <+: next.host.refs
    rw [hrefs]

/-- Nothing happens to the session. -/
private theorem keeps_of_host (h : world.Coherent) (hhost : next.host = world.host)
    (hsize : next.scene.slots.size = world.scene.slots.size)
    (hpending : ∀ action ∈ next.scene.timeline.actions,
      action.effect.Within (· ∈ world.host.refs)) : Contract.objects.Keeps world next := by
  refine h.keeps ?_ hsize ?_ ?_ hpending ?_ <;> rw [hhost]
  · exact h.scopes
  · exact h.properties
  · exact h.visitors

/-- Nothing happens to the time and to the number of primitives. -/
private theorem keeps_of_sameTime (h : world.Coherent) (hhost : next.host = world.host)
    (hsize : next.scene.slots.size = world.scene.slots.size)
    (hsame : world.scene.SameTime next.scene) : Contract.objects.Keeps world next := by
  refine h.keeps_of_host hhost hsize ?_
  rw [hsame.timeline]
  exact h.pending

private theorem keeps_of_idle (h : world.Coherent) (hidle : Idle world next) :
    Contract.objects.Keeps world next := by
  obtain ⟨_, _, _, hhost⟩ := hidle.host
  refine h.keeps ?_ ?_ ?_ ?_ ?_ ?_
  · rw [hhost]; rfl
  · rw [hidle.scene]
  · rw [hhost]; exact h.scopes
  · rw [hhost]; exact h.properties
  · rw [hidle.scene]; exact h.pending
  · rw [hhost]; exact h.visitors

private theorem keeps_of_booked (h : world.Coherent) {arguments : Arguments}
    (harguments : arguments.Within (· ∈ world.host.refs)) (booking : Booking) :
    Contract.objects.Keeps world
      { world with scene := booking.enter arguments world.scene } := by
  refine h.keeps_of_host rfl ?_ fun action hmem => ?_
  · rw [Booking.slots_enter]
  · rcases Booking.mem_enter hmem with hmem | hmem
    · exact h.pending action hmem
    · exact Booking.within_effects harguments hmem

private theorem keeps_of_rebound (h : world.Coherent) {scopes : Scopes}
    (hscopes : scopes.Within (· ∈ world.host.refs)) (depth : Nat) :
    Contract.objects.Keeps world { world with host := { world.host with scopes, depth } } :=
  h.keeps rfl rfl hscopes h.properties h.pending h.visitors

/-- A known object is an object of the session, so its entry takes the property. -/
private theorem keeps_of_setProperty (h : world.Coherent) {object : ObjectRef} {value : Value}
    (hobject : object ∈ world.host.refs) (hvalue : value.Within (· ∈ world.host.refs))
    (name : String) : Contract.objects.Keeps world
      { world with host := world.host.setProperty object name value } := by
  rw [Session.setProperty, h.origin_eq hobject]
  refine h.keeps ?_ rfl h.scopes (fun entry hmem => ?_) h.pending h.visitors
  · exact refs_modify _ _ fun _ => rfl
  · rcases mem_modify hmem with hmem | ⟨old, hold, rfl⟩
    · exact h.properties entry hmem
    · exact (h.properties old hold).insert name hvalue

/-- A new object stands at the end of the list, and so does its primitive among those of the
scene. -/
private theorem keeps_of_constructed (h : world.Coherent) {properties : PropertyMap}
    (hproperties : properties.Within (· ∈ world.host.refs)) {object : ObjectRef}
    (hconstructed : Constructed properties world object next) :
    Contract.objects.Keeps world next ∧ object ∈ next.host.refs := by
  have hobjects : next.host.objects.toList =
      world.host.objects.toList ++ [⟨object, properties⟩] := by
    rw [hconstructed.host, Array.toList_push]
  have hrefs : next.host.refs = world.host.refs ++ [object] := by
    rw [Session.refs, hobjects, List.map_append]
    rfl
  have hgrown (known : ObjectRef) (hmem : known ∈ world.host.refs) : known ∈ next.host.refs :=
    hrefs ▸ List.mem_append_left _ hmem
  obtain ⟨hhosts, htimeline⟩ := hosts_of_built hconstructed.built
  refine ⟨⟨⟨?_, ?_, ?_, ?_, ?_, ?_⟩, ⟨[object], hrefs.symm⟩⟩, ?_⟩
  · intro i known hget
    rw [hrefs] at hget
    rcases getElem?_concat hget with hget | ⟨rfl, rfl⟩
    · exact h.numbered i known hget
    · refine ⟨hconstructed.origin, hconstructed.number.trans ?_⟩
      rw [Session.refs, List.length_map, Array.length_toList]
  · rw [hrefs, List.filterMap_append, h.hosts, ← hhosts]
    rfl
  · have hscopes : next.host.scopes = world.host.scopes := by rw [hconstructed.host]
    exact hscopes ▸ h.scopes.imp hgrown
  · intro entry hmem
    rw [hobjects] at hmem
    rcases List.mem_append.mp hmem with hmem | hmem
    · exact (h.properties entry hmem).imp hgrown
    · rw [List.mem_singleton.mp hmem]
      exact hproperties.imp hgrown
  · intro action hmem
    rw [htimeline] at hmem
    exact (h.pending action hmem).imp hgrown
  · rw [hconstructed.host]
    exact h.visitors
  · exact hrefs ▸ List.mem_append_right _ (List.mem_singleton_self _)

end World.Coherent

end

/-! ## Frames of playback -/

namespace Scene

/-- The number of primitives that have ever been taken in. -/
private abbrev SameSize (scene next : Scene) : Prop := next.slots.size = scene.slots.size

private theorem Changed.sameSize {scene next : Scene} (h : scene.Changed next) :
    scene.SameSize next := by
  cases h with
  | keep | shown => rfl
  | removed | put => exact Array.size_setIfInBounds

private theorem sameSize_swap (scene : Scene) (source target : PrimitiveId) :
    scene.SameSize (scene.swap source target).1 := by
  rw [swap]
  split
  · rfl
  · dsimp only
    split
    · rfl
    · exact Array.size_setIfInBounds.trans Array.size_setIfInBounds

private theorem sameSize_animate {scene next : Scene} {dt : Float} {entries : List LogEntry}
    (h : scene.animate dt = .ok (next, entries)) : scene.SameSize next :=
  @relates_animate scene next SameSize (fun _ => rfl) (fun _ _ _ h h' => Eq.trans h' h)
    (fun _ _ _ _ => Array.size_setIfInBounds) sameSize_swap dt entries h

private theorem kept_finishRecording (scene : Scene) :
    scene.finishRecording.1.slots = scene.slots ∧
      scene.finishRecording.1.timeline = scene.timeline := by
  unfold finishRecording
  split <;> exact ⟨rfl, rfl⟩

end Scene

namespace Contract

open World.Coherent

theorem objects_steady : objects.Steady where
  refl _ := List.prefix_refl _
  trans := List.IsPrefix.trans
  known hleads _ hmem := hleads.subset hmem
  idle := keeps_of_idle

section

variable {world : World Session}

private theorem safe_enact (change : Change) : objects.Safe world (Playback.enact change) := by
  refine scene_bind ?_
  split
  · exact objects_steady.pure trivial
  · rename_i next entries henact
    have hchanged := Scene.changed_enact henact
    refine objects_steady.bind (safe_changeScene fun h => ?_) fun _ _ _ _ => ?_
    · exact keeps_of_sameTime h rfl hchanged.sameSize hchanged.sameTime
    · exact objects_steady.bind (objects_steady.idles (idles_rules.log _)) fun _ _ _ _ =>
        objects_steady.pure trivial

private theorem safe_finishRecording : objects.Safe world Playback.finishRecording := by
  obtain ⟨hslots, htimeline⟩ := Scene.kept_finishRecording world.scene
  refine scene_bind (objects_steady.bind (safe_changeScene fun h => ?_) fun _ _ _ _ =>
    objects_steady.idles (idles_rules.log _))
  have hpending : ∀ action ∈ world.scene.finishRecording.1.timeline.actions,
      action.effect.Within (· ∈ world.host.refs) := by
    rw [htimeline]
    exact h.pending
  exact h.keeps_of_host rfl (congrArg Array.size hslots) hpending

private theorem safe_animate (dt : Float) : objects.Safe world (Playback.animate dt) := by
  refine scene_bind ?_
  cases hanimate : world.scene.animate dt with
  | error fault => exact ⟨fun _ _ _ hrun => (nomatch hrun), fun _ _ _ => trivial⟩
  | ok result =>
    refine .of_ok rfl fun h => ⟨h.keeps_of_sameTime rfl ?_ ?_, trivial⟩
    · exact Scene.sameSize_animate hanimate
    · exact Scene.sameTime_animate hanimate

variable {invoke : Invoker Session} (hinvoke : ∀ world call,
  (∀ value ∈ call.arguments, value.Within (objects.Known world)) → objects.Safe world (invoke call))

include hinvoke

private theorem safe_fire {action : ScheduledAction}
    (h : action.effect.Within (· ∈ world.host.refs)) :
    objects.Safe world (fire invoke action) := by
  have happly : objects.Safe world (apply invoke action.effect) := by
    cases heffect : action.effect with
    | change change => exact safe_enact change
    | invoke call =>
      rw [heffect] at h
      exact hinvoke world call h
  refine objects_steady.bind happly fun outcome _ _ _ => ?_
  split
  · exact objects_steady.pure trivial
  · refine objects_steady.bind (safe_changeScene fun h => ?_) fun _ _ _ _ => ?_
    · exact h.keeps_of_host rfl rfl h.pending
    · exact objects_steady.idles (idles_rules.logOne _ _)

private theorem safe_fireAll {due : List ScheduledAction}
    (h : ∀ action ∈ due, action.effect.Within (· ∈ world.host.refs)) :
    objects.Safe world (fireAll invoke due) := by
  induction due generalizing world with
  | nil => exact objects_steady.pure trivial
  | cons action rest ih =>
    obtain ⟨haction, hrest⟩ := List.forall_mem_cons.mp h
    refine objects_steady.bind (safe_fire hinvoke haction) fun _ next hleads _ => ?_
    exact ih fun other hmem => (hrest other hmem).imp (objects_steady.known hleads)

/-- A frame of playback keeps what holds of the objects if the functions that it runs do. -/
theorem safe_update (dt : Float) : objects.Safe world (Playback.update invoke dt) := by
  refine objects_steady.bind (safe_changeScene fun h => h.keeps_of_host rfl rfl h.pending)
    fun _ entered _ _ => .of_inv fun hentered => scene_bind (scene_bind ?_)
  have hpending := hentered.pending
  refine objects_steady.bind (safe_changeScene fun h => h.keeps_of_host rfl rfl ?_)
    fun _ drained hleads _ => ?_
  · exact fun action hmem => hpending action (List.mem_of_mem_drop hmem)
  · refine objects_steady.bind (safe_fireAll hinvoke fun action hmem => ?_) fun _ _ _ _ =>
      safe_animate dt
    exact (hpending action (List.mem_of_mem_take hmem)).imp (objects_steady.known hleads)

end

/-- What a script does keeps what holds of the objects. -/
theorem objects_lawful : objects.Lawful where
  toSteady := objects_steady
  scopes h := h.scopes
  properties h := h.propertiesOf
  booked h := h.keeps_of_booked
  constructed h hproperties hconstructed := h.keeps_of_constructed hproperties hconstructed
  rebound h := h.keeps_of_rebound
  setProperty h := h.keeps_of_setProperty
  elapse {invoke} hinvoke world seconds := by
    cases hphase : world.scene.phase with
    | recording =>
      refine .of_ok (Session.elapse_recording invoke hphase seconds) fun h => ⟨?_, trivial⟩
      exact h.keeps_of_host rfl rfl h.pending
    | playing =>
      refine scene_bind ?_
      rw [hphase]
      refine scene_bind ?_
      rw [hphase]
      exact objects_steady.bind (safe_update hinvoke _) fun _ _ _ _ => objects_steady.pure trivial

/-- So does recording a script. -/
theorem safe_record {world : World Session} (script : Script) :
    objects.Safe world (Player.record script) := by
  refine objects_steady.bind (objects_steady.idles (idles_rules.log _)) fun _ _ _ _ => ?_
  refine objects_steady.bind (objects_lawful.run script.statements) fun _ _ _ _ => ?_
  refine objects_steady.bind (safe_finishRecording) fun _ _ _ _ => ?_
  exact session_bind (objects_steady.idles (idles_rules.logOne _ _))

end Contract

/-! ## Players -/

theorem World.coherent_initial (settings : Settings) :
    (World.initial settings.bounds (Session.ofSettings settings)).Coherent where
  numbered := nofun
  hosts := rfl
  scopes := Scopes.within_empty
  properties := nofun
  pending := nofun
  visitors := rfl

/-- A primitive that has ever been taken in belongs to just one of the objects. -/
theorem World.Coherent.existsUnique_owner {world : World Session} (h : world.Coherent)
    {id : PrimitiveId} (hid : id.number < world.scene.slots.size) :
    ∃! i : Nat, ∃ object, world.host.refs[i]? = some object ∧ object.host = some id := by
  have hmem : id ∈ world.host.refs.filterMap (·.host) := by
    rw [h.hosts]
    exact List.mem_map.mpr ⟨id.number, List.mem_range.mpr hid, rfl⟩
  have hnodup : (world.host.refs.filterMap (·.host)).Nodup := by
    rw [h.hosts]
    exact List.nodup_range.map fun a b hab => PrimitiveId.mk.inj hab
  have hpairs : world.host.refs.Pairwise fun a b => a.host = some id → b.host ≠ some id :=
    (List.pairwise_filterMap.mp hnodup).imp fun hne ha hb => hne id ha id hb rfl
  have hfirst {i j : Nat} {a b : ObjectRef} (hi : world.host.refs[i]? = some a)
      (hj : world.host.refs[j]? = some b) (ha : a.host = some id) (hb : b.host = some id) :
      j ≤ i := by
    obtain ⟨hilt, rfl⟩ := List.getElem?_eq_some_iff.mp hi
    obtain ⟨hjlt, rfl⟩ := List.getElem?_eq_some_iff.mp hj
    exact Nat.not_lt.mp fun hlt => List.pairwise_iff_getElem.mp hpairs i j hilt hjlt hlt ha hb
  obtain ⟨object, hobject, hhost⟩ := List.mem_filterMap.mp hmem
  obtain ⟨i, hi⟩ := List.getElem?_of_mem hobject
  refine ⟨i, ⟨object, hi, hhost⟩, ?_⟩
  rintro j ⟨other, hj, hother⟩
  exact Nat.le_antisymm (hfirst hi hj hhost hother) (hfirst hj hi hother hhost)

/-- What holds of the objects of a player, now and for the rest of the run. -/
structure Player.ObjectsKept (player : Player) : Prop where
  coherent : player.world.Coherent
  /-- Each primitive that the scene has ever taken in belongs to one object. -/
  owned : ∀ id : PrimitiveId, id.number < player.world.scene.slots.size →
    ∃! i : Nat, ∃ object, player.world.host.refs[i]? = some object ∧ object.host = some id
  /-- The objects stay in their places, with their numbers, types and primitives. -/
  lasting : ∀ (steps : List Float) (later : Player), steps.foldlM update player = .ok later →
    player.world.host.refs <+: later.world.host.refs

namespace Player

private theorem keeps_update {player next : Player} {dt : Float} (h : player.world.Coherent)
    (hupdate : player.update dt = .ok next) :
    Contract.objects.Keeps player.world next.world := by
  obtain ⟨⟨⟨⟩, world⟩, hrun, hnext⟩ := of_bind_eq_ok hupdate
  obtain rfl := Except.ok.inj hnext
  have hserves := Contract.objects_lawful.callees Session.depthLimit
  exact ((Contract.safe_update (fun _ _ => hserves.invoke) dt).ok () world h hrun).1

private theorem keeps_foldlM {steps : List Float} {player later : Player}
    (h : player.world.Coherent) (hplay : steps.foldlM update player = .ok later) :
    Contract.objects.Keeps player.world later.world := by
  induction steps generalizing player with
  | nil =>
    obtain rfl := Except.ok.inj hplay
    exact Contract.objects_steady.keeps_refl h
  | cons dt rest ih =>
    rw [List.foldlM_cons] at hplay
    obtain ⟨next, hupdate, hrest⟩ := of_bind_eq_ok hplay
    have hnext := keeps_update h hupdate
    have hlater := ih hnext.inv hrest
    exact ⟨hlater.inv, hnext.leads.trans hlater.leads⟩

/-- Whatever a script does while it is recorded and played: its objects are listed under their
numbers and stay so, the primitives that the scene has ever taken in belong to them, one each and in
order, and no other object is held in a variable, a property, an array or a call that is to come. -/
theorem play_objects {source : String} {settings : Settings} {steps : List Float} {player : Player}
    (h : (load source settings >>= fun player => steps.foldlM update player) = .ok player) :
    player.ObjectsKept := by
  rw [load_bind_foldlM] at h
  obtain ⟨⟨⟨⟩, world⟩, hrecord, hplay⟩ := of_bind_eq_ok h
  have hrecorded := ((Contract.safe_record (Script.parse source)).ok () world
    (World.coherent_initial settings) hrecord).1
  have hcoherent :=
    (@keeps_foldlM steps ⟨Script.parse source, world⟩ player hrecorded.inv hplay).inv
  exact ⟨hcoherent, fun _ => hcoherent.existsUnique_owner,
    fun _ _ hlater => (keeps_foldlM hcoherent hlater).leads⟩

/-- A rectangle that only a call after a second knows of. -/
def awaitedSource : String := "func f(a) { }; Schedule(true, f, [Rect()])"

/-- The script in this text. -/
private def awaitedScript : Script where
  statements :=
    [.define ⟨1, 1⟩ "f" ["a"] [],
     .expr ⟨1, 16⟩ (.call ⟨1, 16⟩ (.name ⟨1, 16⟩ "Schedule")
       [.positional (.bool ⟨1, 25⟩ true), .positional (.name ⟨1, 31⟩ "f"),
        .positional (.array ⟨1, 34⟩ [.call ⟨1, 35⟩ (.name ⟨1, 35⟩ "Rect") []])])]
  diagnostics := []

set_option maxRecDepth 20000 in
private theorem parse_awaitedSource : Script.parse awaitedSource = awaitedScript := by cbv

theorem play_objects_awaitedSource : ∃ player,
    (load awaitedSource .default >>= fun player => [(0.5 : Float)].foldlM update player) =
      .ok player ∧
    player.world.host.refs = [⟨.session, 1, "rect", some ⟨0⟩⟩] ∧ player.world.scene.pending = 1 ∧
    player.ObjectsKept := by
  have houtcome : (play awaitedScript .default [0.5]).toOption.map
      (fun player => (player.world.host.refs, player.world.scene.pending)) =
      some ([⟨.session, 1, "rect", some ⟨0⟩⟩], 1) := by decide +kernel
  cases hplay : play awaitedScript .default [0.5] with
  | error fault =>
    rw [hplay] at houtcome
    cases houtcome
  | ok player =>
    rw [hplay] at houtcome
    obtain ⟨hrefs, hpending⟩ := Prod.mk.inj (Option.some.inj houtcome)
    have hload : (load awaitedSource .default >>= fun player =>
        [(0.5 : Float)].foldlM update player) = .ok player := by
      rw [load_bind_foldlM, parse_awaitedSource]
      exact hplay
    exact ⟨player, hload, hrefs, hpending, play_objects hload⟩

end Player

end Animatic
