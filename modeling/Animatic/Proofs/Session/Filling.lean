import Mathlib
import Animatic.Proofs.Session.Handlers
import Animatic.Proofs.Value.Insertions

/-!
# How property maps are filled

A property map takes values one at a time or several at once, as the properties of an object that is
constructed, and by assignments to members of that object. All of these are insertions.

* `supplied`: what positional arguments insert into the properties of a new object.
* `propertiesOf_construct`, `propertiesOf_assign`: the properties of a new object, and those of an
  object with a member that has been assigned to.
* `PropertyMap.Filled`: a map and the insertions that have filled it, in whatever ways.
* `records_of_filled`: such a map records its insertions.
-/

namespace Animatic.Session

open Play Playback

/-! ## Constructions -/

/-- What values for parameters insert into given properties: each that is not null, unless there is
something under the name of its parameter by then, whatever its case. -/
def supplied (given : PropertyMap) :
    List (Construct.Parameter × Value) → List (String × Value)
  | [] => []
  | (parameter, value) :: rest =>
    if value.isNull || given.containsIgnoringCase parameter.name then supplied given rest
    else (parameter.name, value) :: supplied (given.insert parameter.name value) rest

/-- The insertions that make the properties of a new object out of those in its braces: the named
arguments, then the positional ones under the names of their parameters. -/
def constructionInsertions (typeName : String) (arguments : Arguments) (given : PropertyMap) :
    List (String × Value) :=
  let parameters := ((Construct.find? typeName).map (·.parameters)).getD []
  arguments.named ++
    supplied (given.insertAll arguments.named) (parameters.zip arguments.positional)

private theorem foldl_eq_insertAll_supplied (values : List (Construct.Parameter × Value))
    (given : PropertyMap) :
    values.foldl
        (fun map (parameter, value) =>
          if value.isNull || map.containsIgnoringCase parameter.name then map
          else map.insert parameter.name value) given =
      given.insertAll (supplied given values) := by
  induction values generalizing given with
  | nil => rfl
  | cons first rest ih =>
    obtain ⟨parameter, value⟩ := first
    rw [List.foldl_cons, ih, supplied]
    dsimp only
    split <;> rfl

theorem constructionProperties_eq (typeName : String) (arguments : Arguments)
    (given : PropertyMap) :
    constructionProperties (Construct.find? typeName) arguments given =
      given.insertAll (constructionInsertions typeName arguments given) := by
  rw [constructionProperties, constructionInsertions]
  dsimp only
  rw [foldl_eq_insertAll_supplied, PropertyMap.insertAll, PropertyMap.insertAll,
    PropertyMap.insertAll, List.foldl_append]

/-- The properties of an object that has just been constructed. -/
theorem propertiesOf_construct {typeName : String} {arguments : Arguments} {given : PropertyMap}
    {world next : World Session} {object : ObjectRef}
    (h : (construct Standard.commands typeName arguments given).run world =
      .ok (.object object, next)) :
    next.host.propertiesOf object =
      given.insertAll (constructionInsertions typeName arguments given) := by
  obtain ⟨made, last, hrun, hmade⟩ := construct_run typeName arguments given world
  rw [h] at hrun
  obtain ⟨hobject, rfl⟩ := Prod.mk.inj (Except.ok.inj hrun)
  obtain rfl := Value.object.inj hobject
  rw [propertiesOf, hmade.origin, hmade.number, hmade.host, ← constructionProperties_eq]
  dsimp only
  rw [Nat.add_sub_cancel, Array.getElem?_push_size]
  rfl

/-! ## Assignments to members -/

/-- A session keeps the properties of every object from outside and of those that it has
constructed. -/
def Knows (session : Session) (object : ObjectRef) : Prop :=
  object.origin = .session → object.number - 1 < session.objects.size

theorem propertiesOf_setProperty {session : Session} {object : ObjectRef}
    (h : session.Knows object) (name : String) (value : Value) :
    (session.setProperty object name value).propertiesOf object =
      (session.propertiesOf object).insert name value := by
  rw [setProperty]
  cases horigin : object.origin with
  | session =>
    have hlt := h horigin
    dsimp only
    rw [propertiesOf, propertiesOf, horigin]
    dsimp only
    rw [Array.getElem?_modify, if_pos rfl, Array.getElem?_eq_getElem hlt]
    rfl
  | outside number =>
    dsimp only
    have hsame : object.same object = true := by simp [ObjectRef.same]
    rw [propertiesOf, horigin]
    dsimp only
    rw [List.find?_cons, hsame]
    rfl

/-- An assignment to a member of an object inserts its value into the properties of the object. -/
theorem propertiesOf_assign {commands : Commands} {callees : Callees} {owner : Script.Expr}
    {world middle next : World Session} {object : ObjectRef} {position : Script.Position}
    {name : String} {value : Value}
    (howner : (eval commands callees owner).run world = .ok (.object object, middle))
    (h : (assign commands callees (.member position owner name) value).run world =
      .ok ((), next))
    (hknown : middle.host.Knows object) :
    next.host.propertiesOf object = (middle.host.propertiesOf object).insert name value := by
  rw [assign, run_bind_of_eq_ok howner] at h
  obtain ⟨-, rfl⟩ := Prod.mk.inj (Except.ok.inj h)
  exact propertiesOf_setProperty hknown name value

end Animatic.Session

namespace Animatic

/-! ## Any insertions -/

/-- A map and the insertions that have filled it, oldest first: one at a time, several at once, when
an object has been constructed with it for its properties, and by assignments to a member of the
object whose properties it is. -/
inductive PropertyMap.Filled : List (String × Value) → PropertyMap → Prop where
  | empty : Filled [] .empty
  | insert {insertions : List (String × Value)} {map : PropertyMap} (h : Filled insertions map)
      (name : String) (value : Value) :
      Filled (insertions ++ [(name, value)]) (map.insert name value)
  | insertAll {insertions : List (String × Value)} {map : PropertyMap} (h : Filled insertions map)
      (entries : List (String × Value)) :
      Filled (insertions ++ entries) (map.insertAll entries)
  | construct {insertions : List (String × Value)} {given : PropertyMap}
      (h : Filled insertions given) {typeName : String} {arguments : Arguments}
      {world next : World Session} {object : ObjectRef}
      (hrun : (Session.construct Standard.commands typeName arguments given).run world =
        .ok (.object object, next)) :
      Filled (insertions ++ Session.constructionInsertions typeName arguments given)
        (next.host.propertiesOf object)
  | assign {insertions : List (String × Value)} {commands : Commands} {callees : Callees}
      {position : Script.Position} {owner : Script.Expr} {name : String} {value : Value}
      {world middle next : World Session} {object : ObjectRef}
      (h : Filled insertions (middle.host.propertiesOf object))
      (hknown : middle.host.Knows object)
      (howner : (Session.eval commands callees owner).run world = .ok (.object object, middle))
      (hrun : (Session.assign commands callees (.member position owner name) value).run world =
        .ok ((), next)) :
      Filled (insertions ++ [(name, value)]) (next.host.propertiesOf object)

namespace PropertyMap

variable {insertions : List (String × Value)} {map : PropertyMap}

/-- However the insertions are made, one after the other makes the same map. -/
theorem Filled.eq_ofList (h : Filled insertions map) : map = ofList insertions := by
  induction h with
  | empty => rfl
  | insert _ name value ih => rw [ih, ofList_concat]
  | insertAll _ entries ih => rw [ih, ofList_append]
  | construct _ hrun ih => rw [Session.propertiesOf_construct hrun, ih, ofList_append]
  | assign _ hknown howner hrun ih =>
    rw [Session.propertiesOf_assign howner hrun hknown, ih, ofList_concat]

/-- A map records the insertions that have filled it, in whatever ways they were made. -/
theorem records_of_filled (h : Filled insertions map) : map.Records insertions :=
  h.eq_ofList ▸ records_ofList insertions

/-- `r = rect(1, 5, WIDTH: 2) { Width: 3 }` gives the primitive a height of 5, and `r.width = 4` adds
one more name: its width, read in another case, is still the one in the braces. -/
theorem records_of_filled_widths :
    ∃ (insertions : List (String × Value)) (map : PropertyMap), Filled insertions map ∧
      map.keys = ["Width", "WIDTH", "height", "width"] ∧
      map.get? "width" = some (.number 4) ∧ map.getIgnoringCase? "wIDTH" = some (.number 3) ∧
      map.containsIgnoringCase "wIDTH" = true ∧ map.size = 4 := by
  let arguments : Arguments := ⟨[.number 1, .number 5], [("WIDTH", .number 2)]⟩
  let world : World Session := .initial ⟨1, 1⟩ (.ofSettings .default)
  obtain ⟨object, next, hrun, hmade⟩ :=
    Session.construct_run "rect" arguments (ofList [("Width", .number 3)]) world
  let named : World Session :=
    { next with host := { next.host with scopes := Scopes.empty.assign "r" (.object object) } }
  have hbraces : Filled [("Width", .number 3)] (ofList [("Width", .number 3)]) :=
    .insertAll .empty _
  have hconstructed : Filled
      [("Width", .number 3), ("WIDTH", .number 2), ("height", .number 5)]
      (named.host.propertiesOf object) := hbraces.construct hrun
  have hknown : named.host.Knows object := fun _ => by
    change object.number - 1 < next.host.objects.size
    rw [hmade.number, hmade.host, Array.size_push, Nat.add_sub_cancel]
    exact Nat.lt_succ_self _
  have howner : (Session.eval Standard.commands (Session.outermost Standard.commands)
      (.name .start "r")).run named = .ok (.object object, named) := by
    rw [Session.eval, Session.variableValue]
    rfl
  have hassign : (Session.assign Standard.commands (Session.outermost Standard.commands)
      (.member .start (.name .start "r") "width") (.number 4)).run named =
        .ok ((), { named with host := named.host.setProperty object "width" (.number 4) }) := by
    rw [Session.assign, run_bind_of_eq_ok howner]
    rfl
  have hfilled := hconstructed.assign hknown howner hassign
  have hrecords := records_of_filled hfilled
  refine ⟨_, _, hfilled, ?_, ?_, ?_, ?_, ?_⟩
  · rw [hrecords.keys]
    decide
  · rw [hrecords.get?]
    rfl
  · rw [hrecords.getIgnoringCase?, hrecords.get?, hrecords.keys]
    cbv
  · rw [hrecords.containsIgnoringCase_iff]
    exact ⟨("Width", .number 3), by simp, by decide⟩
  · rw [hrecords.size]
    decide

end PropertyMap

end Animatic
