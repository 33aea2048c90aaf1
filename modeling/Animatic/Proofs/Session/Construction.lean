import Animatic.Proofs.Construct.Arguments
import Animatic.Proofs.Session.Handlers

/-!
# Ways to write a construction

A value for a parameter of a constructor can be given by position, under the name of the parameter
in braces, or as a named argument. All of these make the same object, and the same primitive or the
same error, as long as no parameter is given twice.

* `Construct.placed`: positional values under the names of their parameters.
* `Construct.select_placed`: a parameter takes a positional value from either place.
* `Session.construct_run_of_hosted`: what a construction of a known type does.
* `Session.construct_run_placed`: the three ways to write it do the same.
-/

namespace Animatic

namespace Construct

variable {settings : Settings} {parameters : List Parameter} {positional : List Value}
  {given : PropertyMap} {parameter : Parameter}

/-- The positional values that are not null, each under the name of the parameter at its place. -/
def placed (parameters : List Parameter) (positional : List Value) : List (String × Value) :=
  ((parameters.zip positional).filter (!·.2.isNull)).map fun (parameter, value) =>
    (parameter.name, value)

theorem placed_cons_of_null {value : Value} (h : value.isNull = true) :
    placed (parameter :: parameters) (value :: positional) = placed parameters positional := by
  rw [placed, List.zip_cons_cons, List.filter_cons_of_neg (by simp [h]), placed]

theorem placed_cons {value : Value} (h : value.isNull = false) :
    placed (parameter :: parameters) (value :: positional) =
      (parameter.name, value) :: placed parameters positional := by
  rw [placed, List.zip_cons_cons, List.filter_cons_of_pos (by simp [h]), List.map_cons, placed]

theorem mem_placed {entry : String × Value} :
    entry ∈ placed parameters positional ↔ ∃ (index : Nat) (parameter : Parameter),
      parameters[index]? = some parameter ∧ parameter.name = entry.1 ∧
        positional[index]? = some entry.2 ∧ entry.2.isNull = false := by
  constructor
  · intro hmem
    obtain ⟨⟨parameter, value⟩, hpair, rfl⟩ := List.mem_map.mp hmem
    obtain ⟨hzip, hnull⟩ := List.mem_filter.mp hpair
    obtain ⟨index, hindex⟩ := List.mem_iff_getElem?.mp hzip
    obtain ⟨hparameter, hvalue⟩ := List.getElem?_zip_eq_some.mp hindex
    exact ⟨index, parameter, hparameter, rfl, hvalue, by simpa using hnull⟩
  · rintro ⟨index, parameter, hparameter, hname, hvalue, hnull⟩
    have hzip : (parameter, entry.2) ∈ parameters.zip positional :=
      List.mem_of_getElem? (List.getElem?_zip_eq_some.mpr ⟨hparameter, hvalue⟩)
    exact List.mem_map.mpr
      ⟨(parameter, entry.2), List.mem_filter.mpr ⟨hzip, by simpa using hnull⟩, Prod.ext hname rfl⟩

theorem placed_sublist :
    ((placed parameters positional).map (·.1)).Sublist (parameters.map Parameter.name) := by
  induction parameters generalizing positional with
  | nil => exact List.nil_sublist _
  | cons first rest ih =>
    cases positional with
    | nil => exact List.nil_sublist _
    | cons value values =>
      cases hnull : value.isNull with
      | true =>
        rw [placed_cons_of_null hnull]
        exact ih.cons _
      | false =>
        rw [placed_cons hnull]
        exact ih.cons_cons _

/-- The names of the parameters differ even when case is ignored. -/
def Distinct (parameters : List Parameter) : Prop :=
  (parameters.map fun parameter => Text.lower parameter.name).Nodup

theorem distinct_parameters (kind : PrimitiveKind) : Distinct (ofKind kind).parameters := by
  rw [Distinct]
  cases kind <;> decide

theorem Distinct.nodup_placed (h : Distinct parameters) :
    ((placed parameters positional).map (·.1)).Nodup := by
  have hnames : ((parameters.map Parameter.name).map Text.lower).Nodup := by
    rw [List.map_map]
    exact h
  have hdistinct := List.Pairwise.of_map Text.lower (fun _ _ => ne_of_apply_ne _) hnames
  exact hdistinct.sublist placed_sublist

theorem Distinct.index_eq (h : Distinct parameters) {i j : Nat} {left right : Parameter}
    (hleft : parameters[i]? = some left) (hright : parameters[j]? = some right)
    (hsame : Text.sameIgnoringCase left.name right.name = true) : i = j := by
  have hi : i < (parameters.map fun parameter => Text.lower parameter.name).length := by
    rw [List.length_map]
    exact (List.getElem?_eq_some_iff.mp hleft).1
  refine (List.getElem?_inj hi h).mp ?_
  rw [List.getElem?_map, List.getElem?_map, hleft, hright]
  exact congrArg some (beq_iff_eq.mp hsame)

/-- A value that is given by position stands under the name of its parameter, and nothing else
does. -/
theorem getIgnoringCase?_placed (hdistinct : Distinct parameters)
    (hfresh : ∀ entry ∈ placed parameters positional, given.containsIgnoringCase entry.1 = false)
    {index : Nat} (hparameter : parameters[index]? = some parameter) {value : Value}
    (hvalue : positional[index]? = some value) (hnull : value.isNull = false) :
    PropertyMap.getIgnoringCase? ⟨given.entries ++ placed parameters positional⟩ parameter.name =
      some value := by
  have hmem : (parameter.name, value) ∈ placed parameters positional :=
    mem_placed.mpr ⟨index, parameter, hparameter, rfl, hvalue, hnull⟩
  refine @PropertyMap.getIgnoringCase?_of_only _ _ (parameter.name, value)
    (List.mem_append_right _ hmem) (beq_self_eq_true _) fun other hother hsame => ?_
  rcases List.mem_append.mp hother with hgiven | hplaced
  · have hnone := PropertyMap.containsIgnoringCase_eq_false_iff.mp (hfresh _ hmem) other hgiven
    rw [hsame] at hnone
    cases hnone
  · obtain ⟨place, listed, hlisted, hname, hgiven, -⟩ := mem_placed.mp hplaced
    obtain rfl := hdistinct.index_eq hlisted hparameter (hname ▸ hsame)
    obtain rfl := Option.some.inj (hlisted.symm.trans hparameter)
    obtain rfl := Option.some.inj (hgiven.symm.trans hvalue)
    rw [hname]

/-- A parameter takes a value that is given by position also from under its name. -/
theorem select_placed (hdistinct : Distinct parameters)
    (hfresh : ∀ entry ∈ placed parameters positional, given.containsIgnoringCase entry.1 = false)
    {index : Nat} (hparameter : parameters[index]? = some parameter) :
    parameter.select settings ⟨given.entries ++ placed parameters positional⟩ positional[index]? =
      parameter.select settings ⟨given.entries ++ placed parameters positional⟩ none := by
  rw [Parameter.select, Parameter.select]
  cases hvalue : positional[index]? with
  | none => rfl
  | some value =>
    cases hnull : value.isNull with
    | true => rw [Option.filter_some, hnull]; rfl
    | false =>
      rw [getIgnoringCase?_placed hdistinct hfresh hparameter hvalue hnull, Option.filter_some,
        hnull]
      rfl

/-- Binding depends on what each parameter selects, and on nothing else. -/
theorem bindAll_congr {typeName : String} {properties : PropertyMap} {other : List Value}
    (h : ∀ (index : Nat) (parameter : Parameter), parameters[index]? = some parameter →
      parameter.select settings properties positional[index]? =
        parameter.select settings properties other[index]?) :
    bindAll settings typeName properties parameters positional =
      bindAll settings typeName properties parameters other := by
  induction parameters generalizing positional other with
  | nil => rfl
  | cons first rest ih =>
    have hfirst : first.argument settings typeName properties positional.head? =
        first.argument settings typeName properties other.head? := by
      have hselect := h 0 first rfl
      rw [← List.head?_eq_getElem?, ← List.head?_eq_getElem?] at hselect
      rw [Parameter.argument, Parameter.argument, hselect]
    have hrest := @ih positional.tail other.tail fun index parameter hparameter => by
      rw [List.getElem?_tail, List.getElem?_tail]
      exact h (index + 1) parameter hparameter
    rw [bindAll, bindAll, hfirst, hrest]

/-- A constructor makes the same of values that are given by position and of the same values under
the names of their parameters. -/
theorem construct_placed {kind : PrimitiveKind}
    (hfresh : ∀ entry ∈ placed (ofKind kind).parameters positional,
      given.containsIgnoringCase entry.1 = false) :
    (ofKind kind).construct settings positional
        ⟨given.entries ++ placed (ofKind kind).parameters positional⟩ =
      (ofKind kind).construct settings []
        ⟨given.entries ++ placed (ofKind kind).parameters positional⟩ := by
  have hselect (index : Nat) (parameter : Parameter)
      (hparameter : (ofKind kind).parameters[index]? = some parameter) :=
    @select_placed settings _ _ _ _ (distinct_parameters kind) hfresh index hparameter
  rw [Constructor.construct, Constructor.construct, Constructor.bind, Constructor.bind,
    @bindAll_congr _ _ _ _ _ [] hselect]

end Construct

namespace Session

open Play Playback Construct

/-! ## The properties of a new object -/

variable {kind : PrimitiveKind} {positional : List Value} {given : PropertyMap}

/-- Positional values become properties behind the given ones. -/
private theorem constructionProperties_positional {constructor : Constructor}
    (hdistinct : Distinct constructor.parameters)
    (hfresh : ∀ entry ∈ placed constructor.parameters positional,
      given.containsIgnoringCase entry.1 = false) :
    constructionProperties (some constructor) ⟨positional, []⟩ given =
      ⟨given.entries ++ placed constructor.parameters positional⟩ := by
  obtain ⟨typeName, parameters, build⟩ := constructor
  dsimp only at hdistinct hfresh ⊢
  induction parameters generalizing positional given with
  | nil => exact congrArg PropertyMap.mk (List.append_nil given.entries).symm
  | cons first rest ih =>
    rw [Distinct, List.map_cons, List.nodup_cons] at hdistinct
    cases positional with
    | nil => exact congrArg PropertyMap.mk (List.append_nil given.entries).symm
    | cons value values =>
      have hstep : constructionProperties (some ⟨typeName, first :: rest, build⟩)
            ⟨value :: values, []⟩ given =
          constructionProperties (some ⟨typeName, rest, build⟩) ⟨values, []⟩
            (if value.isNull || given.containsIgnoringCase first.name then given
              else given.insert first.name value) := rfl
      rw [hstep]
      cases hnull : value.isNull with
      | true =>
        rw [placed_cons_of_null hnull] at hfresh ⊢
        exact ih hdistinct.2 hfresh
      | false =>
        rw [placed_cons hnull] at hfresh ⊢
        rw [List.forall_mem_cons] at hfresh
        rw [hfresh.1, Bool.or_self, if_neg Bool.false_ne_true,
          PropertyMap.insert_of_fresh (PropertyMap.notMem_keys_of_containsIgnoringCase hfresh.1),
          ih hdistinct.2, List.append_assoc]
        · rfl
        -- The name that has just been inserted is unlike those of the parameters behind it.
        · intro entry hentry
          rw [PropertyMap.containsIgnoringCase_eq_false_iff]
          intro other hother
          rcases List.mem_append.mp hother with hold | hnew
          · have hentry := hfresh.2 entry hentry
            exact PropertyMap.containsIgnoringCase_eq_false_iff.mp hentry other hold
          · obtain rfl := List.mem_singleton.mp hnew
            obtain ⟨index, parameter, hparameter, hname, -⟩ := mem_placed.mp hentry
            refine Bool.eq_false_iff.mpr fun hsame => hdistinct.1 ?_
            rw [beq_iff_eq.mp hsame, ← hname]
            exact List.mem_map_of_mem (List.mem_of_getElem? hparameter)

/-- Without positional values the properties are the given ones and the named arguments. -/
private theorem constructionProperties_named (constructor : Option Constructor)
    (named : List (String × Value)) (properties : PropertyMap) :
    constructionProperties constructor ⟨[], named⟩ properties = properties.insertAll named := by
  rw [constructionProperties, List.zip_nil_right]
  rfl

/-- The names of parameters can be given after other names, and come behind them. -/
private theorem insertAll_placed {parameters : List Parameter} (hdistinct : Distinct parameters)
    (hfresh : ∀ entry ∈ placed parameters positional, given.containsIgnoringCase entry.1 = false) :
    given.insertAll (placed parameters positional) =
      ⟨given.entries ++ placed parameters positional⟩ :=
  PropertyMap.insertAll_of_fresh hdistinct.nodup_placed fun entry hentry =>
    PropertyMap.notMem_keys_of_containsIgnoringCase (hfresh entry hentry)

/-! ## The primitive of a new object -/

/-- What is logged where an error leaves an object without a primitive. -/
def unhosted (typeName : String) (e : ConstructError) : LogEntry :=
  ⟨.warn, "cannot construct " ++ typeName ++ ": " ++ e.message⟩

/-- What becomes of the result of a constructor: a primitive is taken into the scene under the next
identity, with the common properties of its object applied to it; on an error there is none, and
the error is logged. -/
inductive Hosted (typeName : String) (properties : PropertyMap) (scene : Scene) :
    Except ConstructError Primitive → Option PrimitiveId → Scene → List LogEntry → Prop where
  | primitive (p : Primitive) :
      Hosted typeName properties scene (.ok p) (some ⟨scene.slots.size⟩)
        (scene.insert (Standard.applyProperties properties p)).2 []
  | none (e : ConstructError) :
      Hosted typeName properties scene (.error e) Option.none scene [unhosted typeName e]

theorem exists_hosted (typeName : String) (properties : PropertyMap) (scene : Scene)
    (result : Except ConstructError Primitive) :
    ∃ host next entries, Hosted typeName properties scene result host next entries := by
  cases result with
  | ok p => exact ⟨_, _, _, .primitive p⟩
  | error e => exact ⟨_, _, _, .none e⟩

private theorem find?_name (kind : PrimitiveKind) : find? kind.name = some (ofKind kind) := by
  cases kind <;> rfl

private theorem runHook_name (kind : PrimitiveKind) (object : ObjectRef) :
    runHook Standard.commands kind.name object = Standard.commonProperties object := by
  have hhook : Standard.commands.hook? kind.name = some Standard.commonProperties := by
    cases kind <;> rfl
  rw [runHook, hhook]

section

variable {properties : PropertyMap} {world : World Session}

private theorem buildHost_ok {p : Primitive}
    (h : (ofKind kind).construct world.host.settings positional properties = .ok p) :
    (buildHost kind.name positional properties).run world =
      .ok (some ⟨world.scene.slots.size⟩,
        { world with
          scene := (world.scene.insert p).2
          log := world.log ++ ((ofKind kind).surplus positional).toArray }) := by
  rw [buildHost, run_bind_of_eq_ok (m := session) rfl, build, find?_name]
  dsimp only
  rw [h]
  rfl

private theorem buildHost_error {e : ConstructError}
    (h : (ofKind kind).construct world.host.settings positional properties = .error e) :
    (buildHost kind.name positional properties).run world =
      .ok (none,
        { world with
          log := world.log ++
            ((ofKind kind).surplus positional ++ [unhosted kind.name e]).toArray }) := by
  have hknown := construct_ne_unknownType h
  have hlog (entry : LogEntry) :
      world.log ++ ((ofKind kind).surplus positional ++ [entry]).toArray =
        (world.log ++ ((ofKind kind).surplus positional).toArray).push entry := by
    simp
  rw [buildHost, run_bind_of_eq_ok (m := session) rfl, build, find?_name]
  dsimp only
  rw [h, hlog]
  cases e with
  | unknownType name => exact absurd rfl (hknown name)
  | _ => rfl

/-- The properties of the object that has just been constructed. -/
private theorem propertiesOf_new (session : Session) (typeName : String)
    (host : Option PrimitiveId) (properties : PropertyMap) :
    let object : ObjectRef := ⟨.session, session.objects.size + 1, typeName, host⟩
    Session.propertiesOf { session with objects := session.objects.push ⟨object, properties⟩ }
      object = properties := by
  intro object
  change ((session.objects.push ⟨object, properties⟩)[session.objects.size]?.map _).getD _ = _
  rw [Array.getElem?_push_size]
  rfl

/-- The primitive of the object that has just been constructed is changed as if it had been taken
into the scene so. -/
private theorem commonProperties_new (scene : Scene) (session : Session) (entries : Array LogEntry)
    (typeName : String) (p : Primitive) :
    let object : ObjectRef :=
      ⟨.session, session.objects.size + 1, typeName, some ⟨scene.slots.size⟩⟩
    (Standard.commonProperties object).run
        { scene := (scene.insert p).2
          host := { session with objects := session.objects.push ⟨object, properties⟩ }
          log := entries } =
      .ok ((),
        { scene := (scene.insert (Standard.applyProperties properties p)).2
          host := { session with objects := session.objects.push ⟨object, properties⟩ }
          log := entries }) := by
  intro object
  rw [Standard.commonProperties]
  dsimp only [object]
  rw [run_bind_of_eq_ok (m := Play.session) rfl]
  dsimp only
  rw [propertiesOf_new, changeScene, StateT.run_modify]
  dsimp only
  rw [Scene.get?_insert]
  dsimp only
  rw [Scene.put_insert]
  rfl

/-- What a construction of a known type does, however its name is spelled. -/
theorem construct_run_of_hosted {typeName : String} {arguments : Arguments}
    {host : Option PrimitiveId} {scene : Scene} {entries : List LogEntry}
    (hname : PrimitiveKind.ofName? typeName = some kind)
    (hproperties : constructionProperties (some (ofKind kind)) arguments given = properties)
    (h : Hosted kind.name properties world.scene
      ((ofKind kind).construct world.host.settings arguments.positional properties)
      host scene entries) :
    let object : ObjectRef := ⟨.session, world.host.objects.size + 1, kind.name, host⟩
    (construct Standard.commands typeName arguments given).run world =
      .ok (.object object,
        { scene
          host := { world.host with objects := world.host.objects.push ⟨object, properties⟩ }
          log := world.log ++
            ((ofKind kind).surplus arguments.positional ++ entries).toArray }) := by
  intro object
  have hfind : find? typeName = some (ofKind kind) := by rw [find?, hname]; rfl
  rw [construct, run_bind_of_eq_ok (m := session) rfl, hfind]
  dsimp only [Option.map_some, Option.getD_some]
  rw [hproperties, typeName_ofKind]
  simp only [runHook_name]
  generalize hresult : (ofKind kind).construct _ _ _ = result at h
  cases h with
  | primitive p =>
    rw [run_bind_of_eq_ok (buildHost_ok hresult), run_bind_of_eq_ok rfl,
      run_bind_of_eq_ok (commonProperties_new ..), List.append_nil]
    rfl
  | none e =>
    rw [run_bind_of_eq_ok (buildHost_error hresult)]
    rfl

end

/-! ## Three ways to write a construction -/

/-- A construction makes the same of positional values, of properties in braces behind the given
ones, and of named arguments, if every value that is not null is for a parameter that is not among
the given properties, whatever its case: an object with the same properties in the same order, and
the same primitive in the scene or the same error and none. Only what is said of positional values
without a parameter is logged for them alone. -/
theorem construct_run_placed {first second third : String}
    (hfirst : PrimitiveKind.ofName? first = some kind)
    (hsecond : PrimitiveKind.ofName? second = some kind)
    (hthird : PrimitiveKind.ofName? third = some kind)
    (hfresh : ∀ entry ∈ placed (ofKind kind).parameters positional,
      given.containsIgnoringCase entry.1 = false) (world : World Session) :
    let values := placed (ofKind kind).parameters positional
    let properties : PropertyMap := ⟨given.entries ++ values⟩
    ∃ result host scene entries,
      (ofKind kind).construct world.host.settings positional properties = result ∧
      (ofKind kind).construct world.host.settings [] properties = result ∧
      Hosted kind.name properties world.scene result host scene entries ∧
      let object : ObjectRef := ⟨.session, world.host.objects.size + 1, kind.name, host⟩
      let session : Session :=
        { world.host with objects := world.host.objects.push ⟨object, properties⟩ }
      (construct Standard.commands first ⟨positional, []⟩ given).run world =
        .ok (.object object, ⟨scene, session,
          world.log ++ ((ofKind kind).surplus positional ++ entries).toArray⟩) ∧
      (construct Standard.commands second .empty (given.insertAll values)).run world =
        .ok (.object object, ⟨scene, session, world.log ++ entries.toArray⟩) ∧
      (given = .empty →
        (construct Standard.commands third ⟨[], values⟩ .empty).run world =
          .ok (.object object, ⟨scene, session, world.log ++ entries.toArray⟩)) := by
  intro values properties
  have hdistinct := distinct_parameters kind
  have hsame := @construct_placed world.host.settings positional given kind hfresh
  obtain ⟨host, scene, entries, hhosted⟩ := exists_hosted kind.name properties world.scene
    ((ofKind kind).construct world.host.settings positional properties)
  have hbraces : given.insertAll values = properties := insertAll_placed hdistinct hfresh
  refine ⟨_, host, scene, entries, rfl, hsame.symm, hhosted, ?_, ?_, ?_⟩
  · have hpositional := constructionProperties_positional hdistinct hfresh
    exact construct_run_of_hosted hfirst hpositional hhosted
  · rw [hsame] at hhosted
    exact construct_run_of_hosted hsecond ((constructionProperties_named _ _ _).trans hbraces)
      hhosted
  · rintro rfl
    rw [hsame] at hhosted
    exact construct_run_of_hosted hthird ((constructionProperties_named _ _ _).trans hbraces)
      hhosted

/-- The positional values of `Rect(null, 2, 3, 4)`: the width is left out, and there is no parameter
for the last one. -/
def sparseValues : List Value := [.null, .number 2, .bool false, .number 4]

/-- The properties in `Rect { Width: 1, x: 3 }`. -/
def leadingProperties : PropertyMap := .ofList [("Width", .number 1), ("x", .number 3)]

theorem construct_run_placed_sparseValues :
    (∀ entry ∈ placed rect.parameters sparseValues,
      leadingProperties.containsIgnoringCase entry.1 = false) ∧
    ∃ object next next',
      (construct Standard.commands "Rect" ⟨sparseValues, []⟩ leadingProperties).run
          (.initial ⟨1, 1⟩ (.ofSettings .default)) = .ok (.object object, next) ∧
      (construct Standard.commands "RECT" .empty
          (leadingProperties.insertAll [("height", .number 2), ("filled", .bool false)])).run
          (.initial ⟨1, 1⟩ (.ofSettings .default)) = .ok (.object object, next') ∧
      next.scene = next'.scene ∧ next.host = next'.host ∧
      next.host.objects.toList.map (·.properties.entries) =
        [[("Width", .number 1), ("x", .number 3), ("height", .number 2),
          ("filled", .bool false)]] := by
  have hfresh : ∀ entry ∈ placed rect.parameters sparseValues,
      leadingProperties.containsIgnoringCase entry.1 = false := by
    have hplaced : placed rect.parameters sparseValues =
        [("height", .number 2), ("filled", .bool false)] := rfl
    simp only [hplaced, List.forall_mem_cons]
    exact ⟨by decide, by decide, nofun⟩
  obtain ⟨result, host, scene, entries, -, -, -, hfirst, hsecond, -⟩ :=
    @construct_run_placed .rect sparseValues leadingProperties "Rect" "RECT" "rect"
      (by decide) (by decide) (by decide) hfresh
      (.initial ⟨1, 1⟩ (.ofSettings .default))
  exact ⟨hfresh, _, _, _, hfirst, hsecond, rfl, rfl, rfl⟩

end Session

end Animatic
