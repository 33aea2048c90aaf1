import Animatic.Session.Eval

/-!
# Objects in values

A script holds objects in variables, properties and arguments, and inside arrays. Whatever holds of
the objects that go into a binding or a call holds of those that come out.

* `Value.objects`: the objects in a value.
* `Value.Within`, `PropertyMap.Within`, `Arguments.Within`, `Scopes.Within`: a property of all of
  them.
-/

namespace Animatic

mutual

/-- The objects in a value, also inside arrays. -/
def Value.objects : Value → List ObjectRef
  | .object ref => [ref]
  | .array items => Value.allObjects items
  | _ => []

/-- The objects in some values. -/
def Value.allObjects : List Value → List ObjectRef
  | [] => []
  | value :: rest => value.objects ++ Value.allObjects rest

end

variable {P P' : ObjectRef → Prop}

/-! ## Values -/

/-- Every object in a value has a property. -/
def Value.Within (P : ObjectRef → Prop) (value : Value) : Prop := ∀ object ∈ value.objects, P object

/-- Every object in some named values has a property. -/
def NamedWithin (P : ObjectRef → Prop) (named : List (String × Value)) : Prop :=
  ∀ entry ∈ named, entry.2.Within P

namespace Value

theorem within_of_objects_nil {value : Value} (h : value.objects = []) : value.Within P :=
  fun object hmem => by
    rw [h] at hmem
    cases hmem

theorem within_of_forall (h : ∀ object, P object) (value : Value) : value.Within P :=
  fun object _ => h object

@[simp] theorem within_object {object : ObjectRef} : (Value.object object).Within P ↔ P object :=
  List.forall_mem_singleton

private theorem mem_allObjects {object : ObjectRef} {items : List Value} :
    object ∈ allObjects items ↔ ∃ value ∈ items, object ∈ value.objects := by
  induction items with
  | nil => simp [allObjects]
  | cons value rest ih => simp [allObjects, ih]

@[simp] theorem within_array {items : List Value} :
    (Value.array items).Within P ↔ ∀ value ∈ items, value.Within P := by
  refine ⟨fun h value hmem object hobject => ?_, fun h object hobject => ?_⟩
  · exact h object (mem_allObjects.mpr ⟨value, hmem, hobject⟩)
  · obtain ⟨value, hmem, hobject⟩ := mem_allObjects.mp hobject
    exact h value hmem object hobject

theorem Within.imp {value : Value} (h : value.Within P) (himp : ∀ object, P object → P' object) :
    value.Within P' := fun object hmem => himp object (h object hmem)

/-- Operators make no objects. -/
theorem within_binary (op : Script.BinaryOp) (lhs rhs : Value) :
    (Value.binary op lhs rhs).Within P := by
  refine within_of_objects_nil ?_
  cases op with
  | add => rw [binary]; split <;> rfl
  | _ => rfl

theorem within_unary (op : Script.UnaryOp) (operand : Value) :
    (Value.unary op operand).Within P := by
  cases op <;> exact within_of_objects_nil rfl

end Value

/-! ## Property maps -/

/-- Every object in a property map has a property. -/
def PropertyMap.Within (P : ObjectRef → Prop) (map : PropertyMap) : Prop :=
  NamedWithin P map.entries

namespace PropertyMap

variable {map : PropertyMap}

theorem within_empty : PropertyMap.empty.Within P := nofun

theorem within_of_forall (h : ∀ object, P object) (map : PropertyMap) : map.Within P :=
  fun entry _ => entry.2.within_of_forall h

theorem Within.imp (h : map.Within P) (himp : ∀ object, P object → P' object) : map.Within P' :=
  fun entry hmem => (h entry hmem).imp himp

theorem Within.get? (h : map.Within P) {name : String} {value : Value}
    (hget : map.get? name = some value) : value.Within P := by
  obtain ⟨entry, hfind, rfl⟩ := Option.map_eq_some_iff.mp hget
  exact h entry (List.mem_of_find?_eq_some hfind)

private theorem mem_insertEntry {name : String} {value : Value} {entry : String × Value}
    {entries : List (String × Value)} (h : entry ∈ insertEntry name value entries) :
    entry = (name, value) ∨ entry ∈ entries := by
  induction entries with
  | nil => exact .inl (List.mem_singleton.mp h)
  | cons first rest ih =>
    rw [insertEntry] at h
    split at h
    · rcases List.mem_cons.mp h with h | h
      · exact .inl h
      · exact .inr (List.mem_cons_of_mem _ h)
    · rcases List.mem_cons.mp h with h | h
      · exact .inr (h ▸ List.mem_cons_self)
      · exact (ih h).imp_right (List.mem_cons_of_mem _)

theorem Within.insert (h : map.Within P) (name : String) {value : Value} (hvalue : value.Within P) :
    (map.insert name value).Within P := fun entry hmem => by
  rcases mem_insertEntry hmem with rfl | hmem
  · exact hvalue
  · exact h entry hmem

theorem Within.insertAll (h : map.Within P) {entries : List (String × Value)}
    (hentries : NamedWithin P entries) : (map.insertAll entries).Within P := by
  induction entries generalizing map with
  | nil => exact h
  | cons entry rest ih =>
    obtain ⟨hfirst, hrest⟩ := List.forall_mem_cons.mp hentries
    exact ih (h.insert entry.1 hfirst) hrest

theorem within_ofList {entries : List (String × Value)} (h : NamedWithin P entries) :
    (PropertyMap.ofList entries).Within P := within_empty.insertAll h

end PropertyMap

/-! ## Arguments -/

/-- Every object in the arguments of a call has a property. -/
structure Arguments.Within (P : ObjectRef → Prop) (arguments : Arguments) : Prop where
  positional : ∀ value ∈ arguments.positional, value.Within P
  named : NamedWithin P arguments.named

namespace Arguments

variable {arguments : Arguments}

theorem within_empty : Arguments.empty.Within P := ⟨nofun, nofun⟩

theorem within_of_forall (h : ∀ object, P object) (arguments : Arguments) : arguments.Within P :=
  ⟨fun value _ => value.within_of_forall h, fun entry _ => entry.2.within_of_forall h⟩

theorem within_ofList {values : List Value} (h : ∀ value ∈ values, value.Within P) :
    (Arguments.ofList values).Within P := ⟨h, nofun⟩

theorem Within.imp (h : arguments.Within P) (himp : ∀ object, P object → P' object) :
    arguments.Within P' :=
  ⟨fun value hmem => (h.positional value hmem).imp himp,
    fun entry hmem => (h.named entry hmem).imp himp⟩

theorem Within.get? (h : arguments.Within P) {index : Nat} {name : String} {value : Value}
    (hget : arguments.get? index name = some value) : value.Within P := by
  rcases Option.or_eq_some_iff.mp hget with hget | ⟨-, hget⟩
  · obtain ⟨entry, hfind, rfl⟩ := Option.map_eq_some_iff.mp hget
    exact h.named entry (List.mem_of_find?_eq_some hfind)
  · exact h.positional value (List.mem_of_getElem? hget)

/-- An object that a call is given has what all objects in its arguments have. -/
theorem Within.object_of_get? (h : arguments.Within P) {index : Nat} {name : String}
    {object : ObjectRef} (hget : (arguments.get? index name).bind Value.object? = some object) :
    P object := by
  obtain ⟨value, hvalue, hobject⟩ := Option.bind_eq_some_iff.mp hget
  cases value with
  | object ref =>
    obtain rfl := Option.some.inj hobject
    exact Value.within_object.mp (h.get? hvalue)
  | _ => cases hobject

end Arguments

/-! ## Scopes -/

/-- Every object in a binding has a property. -/
structure Scopes.Within (P : ObjectRef → Prop) (scopes : Scopes) : Prop where
  globals : scopes.globals.Within P
  locals : ∀ frame ∈ scopes.locals, frame.Within P

namespace Scopes

variable {scopes : Scopes}

theorem within_empty : Scopes.empty.Within P := ⟨PropertyMap.within_empty, nofun⟩

theorem within_of_forall (h : ∀ object, P object) (scopes : Scopes) : scopes.Within P :=
  ⟨scopes.globals.within_of_forall h, fun frame _ => frame.within_of_forall h⟩

theorem Within.imp (h : scopes.Within P) (himp : ∀ object, P object → P' object) :
    scopes.Within P' :=
  ⟨h.globals.imp himp, fun frame hmem => (h.locals frame hmem).imp himp⟩

theorem Within.get? (h : scopes.Within P) {name : String} {value : Value}
    (hget : scopes.get? name = some value) : value.Within P := by
  rcases Option.or_eq_some_iff.mp hget with hget | ⟨-, hget⟩
  · obtain ⟨frame, hmem, hget⟩ := List.exists_of_findSome?_eq_some hget
    exact (h.locals frame hmem).get? hget
  · exact h.globals.get? hget

theorem Within.push (h : scopes.Within P) : scopes.push.Within P :=
  ⟨h.globals, List.forall_mem_cons.mpr ⟨PropertyMap.within_empty, h.locals⟩⟩

theorem Within.pop (h : scopes.Within P) : scopes.pop.Within P :=
  ⟨h.globals, fun frame hmem => h.locals frame (List.mem_of_mem_tail hmem)⟩

theorem Within.assign (h : scopes.Within P) (name : String) {value : Value}
    (hvalue : value.Within P) : (scopes.assign name value).Within P := by
  obtain ⟨globals, locals⟩ := scopes
  cases locals with
  | nil => exact ⟨h.globals.insert name hvalue, nofun⟩
  | cons frame outer =>
    obtain ⟨hframe, houter⟩ := List.forall_mem_cons.mp h.locals
    exact ⟨h.globals, List.forall_mem_cons.mpr ⟨hframe.insert name hvalue, houter⟩⟩

theorem Within.assignAll (h : scopes.Within P) {bindings : List (String × Value)}
    (hbindings : NamedWithin P bindings) :
    (bindings.foldl (fun scopes (name, value) => scopes.assign name value) scopes).Within P := by
  induction bindings generalizing scopes with
  | nil => exact h
  | cons binding rest ih =>
    obtain ⟨hfirst, hrest⟩ := List.forall_mem_cons.mp hbindings
    exact ih (h.assign binding.1 hfirst) hrest

end Scopes

/-! ## Parameters -/

namespace Session

private theorem mem_swapRemove {α : Type} {items : List α} {index : Nat} {a : α}
    (h : a ∈ swapRemove items index) : a ∈ items := by
  rw [swapRemove] at h
  split at h
  · cases h
  · rename_i last hlast
    rcases List.mem_or_eq_of_mem_set ((List.dropLast_sublist _).subset h) with h | rfl
    · exact h
    · exact List.mem_of_getLast? hlast

private theorem within_takeNamed {name : String} {named : List (String × Value)}
    (h : NamedWithin P named) :
    (takeNamed name named).1.Within P ∧ NamedWithin P (takeNamed name named).2 := by
  rw [takeNamed]
  split
  · exact ⟨Value.within_of_objects_nil rfl, h⟩
  · rename_i index _
    refine ⟨?_, fun entry hmem => h entry (mem_swapRemove hmem)⟩
    cases hentry : named[index]? with
    | none => exact Value.within_of_objects_nil rfl
    | some entry => exact h entry (List.mem_of_getElem? hentry)

/-- Parameters are bound to arguments. -/
theorem within_bindParameters (names : List String) {positional : List Value}
    {named : List (String × Value)} (hpositional : ∀ value ∈ positional, value.Within P)
    (hnamed : NamedWithin P named) : NamedWithin P (bindParameters names positional named) := by
  induction names generalizing positional named with
  | nil => exact nofun
  | cons name names ih =>
    cases positional with
    | nil =>
      obtain ⟨hvalue, hrest⟩ := @within_takeNamed _ name named hnamed
      exact List.forall_mem_cons.mpr ⟨hvalue, ih nofun hrest⟩
    | cons value positional =>
      obtain ⟨hvalue, hrest⟩ := List.forall_mem_cons.mp hpositional
      exact List.forall_mem_cons.mpr ⟨hvalue, ih hrest hnamed⟩

/-- The properties of a new object are those that it is given. -/
theorem within_constructionProperties (constructor : Option Construct.Constructor)
    {arguments : Arguments} {properties : PropertyMap} (harguments : arguments.Within P)
    (hproperties : properties.Within P) :
    (constructionProperties constructor arguments properties).Within P := by
  refine List.foldlRecOn _ _ (hproperties.insertAll harguments.named) ?_
  intro map hmap pair hmem
  dsimp only
  split
  · exact hmap
  · exact hmap.insert _ (harguments.positional _ (List.of_mem_zip hmem).2)

end Session

end Animatic
