import Animatic.Construct.Basic
import Animatic.Proofs.Value.Properties

/-!
# Arguments of constructors

Binding converts the value of every declared parameter, or fails at the first one that does not fit.
A constructor then finds what it asks for, each argument under its name and of its sort.

* `selected`: the value that a parameter takes.
* `Binds`: what binding gives; `bindAll_binds`: it does so for any parameters.
* `Makes`: what each constructor makes of the arguments that it finds.
* `bind_makes`: both for the constructors that there are.
-/

namespace Animatic.Construct

variable {settings : Settings} {typeName : String} {properties : PropertyMap}
  {parameters : List Parameter} {positional : List Value} {parameter : Parameter} {value : Value}

/-! ## Binding -/

/-- The value fits the parameter, and this is what it is converted to. -/
def Parameter.Fits (parameter : Parameter) (value : Value) (argument : Argument) : Prop :=
  value.isNull = false ∧ parameter.converter.convert value = some argument

/-- The value does not fit the parameter, and this is the error that tells why. -/
inductive Parameter.Refuses (typeName : String) (parameter : Parameter) (value : Value) :
    ConstructError → Prop where
  | missing (h : value.isNull = true) :
      Refuses typeName parameter value (.missingParameter typeName parameter.name)
  | invalid (h : value.isNull = false) (hconvert : parameter.converter.convert value = none) :
      Refuses typeName parameter value (.invalidValue typeName parameter.name value.display)

/-- The value of a parameter that is not given by position: the property of its name, whatever its
case, or else its default. -/
def named (settings : Settings) (properties : PropertyMap) (parameter : Parameter) : Value :=
  match properties.getIgnoringCase? parameter.name with
  | some value => value
  | none => parameter.default.value settings

/-- The value that is selected for the parameter at an index: the positional one, unless there is
none there or it is null. -/
def selected (settings : Settings) (properties : PropertyMap) (positional : List Value)
    (index : Nat) (parameter : Parameter) : Value :=
  match positional[index]? with
  | none | some .null => named settings properties parameter
  | some value => value

/-- A parameter takes the value that is selected for its index. -/
theorem select_eq_selected (settings : Settings) (properties : PropertyMap)
    (positional : List Value) (index : Nat) (parameter : Parameter) :
    parameter.select settings properties positional[index]? =
      selected settings properties positional index parameter := by
  have hnamed : (properties.getIgnoringCase? parameter.name).getD
      (parameter.default.value settings) = named settings properties parameter := by
    rw [named]
    cases properties.getIgnoringCase? parameter.name <;> rfl
  rw [Parameter.select, selected]
  cases positional[index]? with
  | none => exact hnamed
  | some value =>
    cases value with
    | null => exact hnamed
    | _ => rfl

/-- What binding gives: for each parameter the argument that its selected value is converted to, or
the error of the first parameter whose selected value does not fit. -/
inductive Binds (settings : Settings) (typeName : String) (properties : PropertyMap)
    (parameters : List Parameter) (positional : List Value) :
    Except ConstructError (List (String × Argument)) → Prop where
  | ok (arguments : List (String × Argument)) (hlength : arguments.length = parameters.length)
      (h : ∀ index (parameter : Parameter), parameters[index]? = some parameter →
        ∃ argument, arguments[index]? = some (parameter.name, argument) ∧
          parameter.Fits (selected settings properties positional index parameter) argument) :
      Binds settings typeName properties parameters positional (.ok arguments)
  | error (index : Nat) (parameter : Parameter) (e : ConstructError)
      (hparameter : parameters[index]? = some parameter)
      (hearlier : ∀ before (earlier : Parameter), before < index →
        parameters[before]? = some earlier → ∃ argument,
          earlier.Fits (selected settings properties positional before earlier) argument)
      (h : parameter.Refuses typeName (selected settings properties positional index parameter) e) :
      Binds settings typeName properties parameters positional (.error e)

private theorem argument_cases (settings : Settings) (typeName : String) (properties : PropertyMap)
    (given : Option Value) (parameter : Parameter) :
    (∃ argument, parameter.argument settings typeName properties given = .ok argument ∧
      parameter.Fits (parameter.select settings properties given) argument) ∨
    ∃ e, parameter.argument settings typeName properties given = .error e ∧
      parameter.Refuses typeName (parameter.select settings properties given) e := by
  rw [Parameter.argument]
  split
  · rename_i hnull
    exact .inr ⟨_, rfl, .missing hnull⟩
  · rename_i hnull
    rw [Bool.not_eq_true] at hnull
    split
    · rename_i argument hconvert
      exact .inl ⟨argument, rfl, hnull, hconvert⟩
    · rename_i hconvert
      exact .inr ⟨_, rfl, .invalid hnull hconvert⟩

/-- Binding goes through the parameters in order and stops at the first that does not fit. -/
theorem bindAll_binds (settings : Settings) (typeName : String) (properties : PropertyMap)
    (parameters : List Parameter) (positional : List Value) :
    Binds settings typeName properties parameters positional
      (bindAll settings typeName properties parameters positional) := by
  induction parameters generalizing positional with
  | nil => exact .ok [] rfl nofun
  | cons first rest ih =>
    have htail (index : Nat) (parameter : Parameter) :
        selected settings properties positional.tail index parameter =
          selected settings properties positional (index + 1) parameter := by
      rw [selected, selected, List.getElem?_tail]
    have hhead : first.select settings properties positional.head? =
        selected settings properties positional 0 first := by
      rw [List.head?_eq_getElem?, select_eq_selected]
    rw [bindAll.eq_def]
    dsimp only
    rcases argument_cases settings typeName properties positional.head? first with
      ⟨argument, hfirst, hfits⟩ | ⟨e, hfirst, hrefuses⟩
    · rw [hhead] at hfits
      rw [hfirst]
      have hrest := ih positional.tail
      generalize bindAll settings typeName properties rest positional.tail = r at hrest ⊢
      cases hrest with
      | ok arguments hlength h =>
        refine .ok ((first.name, argument) :: arguments) (congrArg Nat.succ hlength) ?_
        intro index parameter hparameter
        cases index with
        | zero =>
          obtain rfl := Option.some.inj hparameter
          exact ⟨argument, rfl, hfits⟩
        | succ index =>
          rw [← htail]
          exact h index parameter hparameter
      | error index parameter e hparameter hearlier h =>
        refine .error (index + 1) parameter e hparameter ?_ (htail index parameter ▸ h)
        intro before earlier hbefore hlisted
        cases before with
        | zero =>
          obtain rfl := Option.some.inj hlisted
          exact ⟨argument, hfits⟩
        | succ before =>
          rw [← htail]
          exact hearlier before earlier (Nat.lt_of_succ_lt_succ hbefore) hlisted
    · rw [hhead] at hrefuses
      rw [hfirst]
      exact .error 0 first e rfl nofun hrefuses

/-- Every default fits its parameter. -/
theorem default_fits (kind : PrimitiveKind) (settings : Settings) :
    ∀ parameter ∈ (ofKind kind).parameters,
      ∃ argument, parameter.Fits (parameter.default.value settings) argument := by
  cases kind
  case text =>
    intro parameter hmem
    have hcenter : ∃ name, toChoice? (Align.all.map Align.name) (.text "center") = some name := by
      exact ⟨"center", by decide⟩
    obtain ⟨name, hname⟩ := hcenter
    simp only [ofKind, text, List.mem_cons, List.not_mem_nil, or_false] at hmem
    rcases hmem with rfl | rfl | rfl | rfl
    · exact ⟨_, rfl, rfl⟩
    · exact ⟨_, rfl, rfl⟩
    · exact ⟨_, rfl, rfl⟩
    · exact ⟨.choice name, rfl, congrArg (Option.map Argument.choice) hname⟩
  all_goals
    intro parameter hmem
    simp only [ofKind, rect, circle, polygon, line, List.mem_cons, List.not_mem_nil,
      or_false] at hmem
    rcases hmem with rfl | rfl | rfl <;> exact ⟨_, rfl, rfl⟩

/-! ## Looking arguments up -/

/-- An argument that a converter gives is found under the name of its parameter. -/
def Bound.Holds (bound : Bound) (name : String) (converter : Converter) : Prop :=
  ∃ value argument, bound.find name = .ok argument ∧ converter.convert value = some argument

section

variable {bound : Bound} {name : String}

theorem Bound.Holds.float (h : bound.Holds name .float) : ∃ x, bound.float name = .ok x := by
  obtain ⟨value, argument, hfind, hconvert⟩ := h
  obtain ⟨x, -, rfl⟩ := Option.map_eq_some_iff.mp hconvert
  exact ⟨x, by rw [Bound.float, hfind]; rfl⟩

theorem Bound.Holds.text (h : bound.Holds name .text) : ∃ s, bound.text name = .ok s := by
  obtain ⟨value, argument, hfind, hconvert⟩ := h
  obtain ⟨s, -, rfl⟩ := Option.map_eq_some_iff.mp hconvert
  exact ⟨s, by rw [Bound.text, hfind]; rfl⟩

theorem Bound.Holds.vec3 (h : bound.Holds name .vec3) : ∃ v, bound.vec3 name = .ok v := by
  obtain ⟨value, argument, hfind, hconvert⟩ := h
  obtain ⟨v, -, rfl⟩ := Option.map_eq_some_iff.mp hconvert
  exact ⟨v, by rw [Bound.vec3, hfind]; rfl⟩

theorem Bound.Holds.bool (h : bound.Holds name .bool) : ∃ b, bound.bool name = .ok b := by
  obtain ⟨value, argument, hfind, hconvert⟩ := h
  obtain ⟨b, -, rfl⟩ := Option.map_eq_some_iff.mp hconvert
  exact ⟨b, by rw [Bound.bool, hfind]; rfl⟩

theorem Bound.Holds.points (h : bound.Holds name .points) : ∃ ps, bound.points name = .ok ps := by
  obtain ⟨value, argument, hfind, hconvert⟩ := h
  obtain ⟨ps, -, rfl⟩ := Option.map_eq_some_iff.mp hconvert
  exact ⟨ps, by rw [Bound.points, hfind]; rfl⟩

theorem Bound.Holds.choice {names : List String} (h : bound.Holds name (.choice names)) :
    ∃ chosen ∈ names, bound.choice name = .ok chosen := by
  obtain ⟨value, argument, hfind, hconvert⟩ := h
  obtain ⟨chosen, hchosen, rfl⟩ := Option.map_eq_some_iff.mp hconvert
  cases value with
  | text s =>
    refine ⟨chosen, List.mem_of_find?_eq_some hchosen, ?_⟩
    rw [Bound.choice, hfind]
    rfl
  | _ => cases hchosen

end

/-- What binding gives is found under the names of the parameters. -/
private theorem holds_of_fits {arguments : List (String × Argument)}
    (hdistinct : (parameters.map Parameter.name).Nodup)
    (hlength : arguments.length = parameters.length)
    (h : ∀ index (parameter : Parameter), parameters[index]? = some parameter →
      ∃ argument, arguments[index]? = some (parameter.name, argument) ∧
        parameter.Fits (selected settings properties positional index parameter) argument)
    (hmem : parameter ∈ parameters) :
    Bound.Holds ⟨typeName, arguments⟩ parameter.name parameter.converter := by
  have hnames : arguments.map (·.1) = parameters.map Parameter.name := by
    refine List.ext_getElem (by simpa using hlength) fun index hleft hright => ?_
    rw [List.length_map] at hleft hright
    obtain ⟨argument, hargument, -⟩ := h index _ (List.getElem?_eq_getElem hright)
    rw [List.getElem_map, List.getElem_map, (List.getElem?_eq_some_iff.mp hargument).2]
  obtain ⟨index, hindex⟩ := List.mem_iff_getElem?.mp hmem
  obtain ⟨argument, hargument, -, hconvert⟩ := h index parameter hindex
  have hfind : arguments.find? (·.1 == parameter.name) = some (parameter.name, argument) :=
    find?_of_mem (hnames ▸ hdistinct) (List.mem_of_getElem? hargument)
  exact ⟨_, argument, by rw [Bound.find, hfind], hconvert⟩

/-! ## Making primitives -/

/-- What a constructor makes of arguments: it finds every one that it asks for under its name and of
the sort that it asks for. Only a polygon without points comes to nothing. -/
inductive Makes (bound : Bound) : PrimitiveKind → Except ConstructError Primitive → Prop where
  | rect {width height : Float32} {filled : Bool} (hwidth : bound.float "width" = .ok width)
      (hheight : bound.float "height" = .ok height) (hfilled : bound.bool "filled" = .ok filled) :
      Makes bound .rect (.ok (.rect width height filled))
  | circle {radius segments : Float32} {filled : Bool}
      (hsegments : bound.float "segments" = .ok segments)
      (hradius : bound.float "radius" = .ok radius) (hfilled : bound.bool "filled" = .ok filled) :
      Makes bound .circle (.ok (.circle radius
        (max 3 (Number.roundWithin Number.wordLimit (Number.exact32 segments))) filled))
  | polygon {points : List Point} {filled : Bool} (hpoints : bound.points "points" = .ok points)
      (hfilled : bound.bool "filled" = .ok filled) (hsome : points ≠ []) :
      Makes bound .polygon (.ok
        { Primitive.polygon (Outline.centered points) filled with
          transform := { Transform.identity with
            x := (Outline.center points).x, y := (Outline.center points).y } })
  | noPoints {filled : Bool} (hpoints : bound.points "points" = .ok [])
      (hfilled : bound.bool "filled" = .ok filled) :
      Makes bound .polygon (.error (.invalidValue "polygon" "points" "[]"))
  | line {start stop : Vec3} (hfrom : bound.vec3 "from" = .ok start)
      (hto : bound.vec3 "to" = .ok stop) : Makes bound .line (.ok (.line start stop))
  | text {content font : String} {size : Float32} {align : Align}
      (halign : bound.choice "align" = .ok align.name)
      (hcontent : bound.text "content" = .ok content)
      (hsize : bound.float "size" = .ok size) (hfont : bound.text "font" = .ok font) :
      Makes bound .text (.ok (.text content size font align))

/-- The declared parameters with the ways their values are converted. -/
private def declared (kind : PrimitiveKind) : List (String × Converter) :=
  (ofKind kind).parameters.map fun parameter => (parameter.name, parameter.converter)

private theorem makes_of_holds {kind : PrimitiveKind} {bound : Bound}
    (h : ∀ name converter, (name, converter) ∈ declared kind → bound.Holds name converter) :
    Makes bound kind ((ofKind kind).build bound) := by
  cases kind with
  | rect =>
    obtain ⟨width, hwidth⟩ := (h "width" .float (by simp [declared, ofKind, rect])).float
    obtain ⟨height, hheight⟩ := (h "height" .float (by simp [declared, ofKind, rect])).float
    obtain ⟨filled, hfilled⟩ := (h "filled" .bool (by simp [declared, ofKind, rect])).bool
    simp only [ofKind, rect, hwidth, hheight, hfilled]
    exact .rect hwidth hheight hfilled
  | circle =>
    obtain ⟨radius, hradius⟩ := (h "radius" .float (by simp [declared, ofKind, circle])).float
    obtain ⟨filled, hfilled⟩ := (h "filled" .bool (by simp [declared, ofKind, circle])).bool
    obtain ⟨segments, hsegments⟩ :=
      (h "segments" .float (by simp [declared, ofKind, circle])).float
    simp only [ofKind, circle, hradius, hfilled, hsegments]
    exact .circle hsegments hradius hfilled
  | polygon =>
    obtain ⟨points, hpoints⟩ := (h "points" .points (by simp [declared, ofKind, polygon])).points
    obtain ⟨filled, hfilled⟩ := (h "filled" .bool (by simp [declared, ofKind, polygon])).bool
    simp only [ofKind, polygon, hpoints, hfilled]
    cases points with
    | nil => exact .noPoints hpoints hfilled
    | cons first rest => exact .polygon hpoints hfilled (List.cons_ne_nil first rest)
  | line =>
    obtain ⟨start, hfrom⟩ := (h "from" .vec3 (by simp [declared, ofKind, line])).vec3
    obtain ⟨stop, hto⟩ := (h "to" .vec3 (by simp [declared, ofKind, line])).vec3
    simp only [ofKind, line, hfrom, hto]
    exact .line hfrom hto
  | text =>
    obtain ⟨content, hcontent⟩ := (h "content" .text (by simp [declared, ofKind, text])).text
    obtain ⟨size, hsize⟩ := (h "size" .float (by simp [declared, ofKind, text])).float
    obtain ⟨font, hfont⟩ := (h "font" .text (by simp [declared, ofKind, text])).text
    obtain ⟨chosen, hchosen, halign⟩ :=
      (h "align" (.choice (Align.all.map Align.name)) (by simp [declared, ofKind, text])).choice
    obtain ⟨align, -, rfl⟩ := List.mem_map.mp hchosen
    have hname : Align.ofName? align.name = some align := by
      cases align <;> decide
    simp only [ofKind, text, hcontent, hsize, hfont, halign]
    change Makes bound .text (.ok (.text content size font
      ((Align.ofName? align.name).getD .center)))
    rw [hname]
    exact .text halign hcontent hsize hfont

private theorem nodup_names (kind : PrimitiveKind) :
    ((ofKind kind).parameters.map Parameter.name).Nodup := by
  cases kind <;> decide

theorem typeName_ofKind (kind : PrimitiveKind) : (ofKind kind).typeName = kind.name := by
  cases kind <;> rfl

/-- A constructor finds its arguments in what binding gives. -/
private theorem makes_of_binds {kind : PrimitiveKind} {arguments : List (String × Argument)}
    (h : Binds settings kind.name properties (ofKind kind).parameters positional (.ok arguments)) :
    Makes ⟨kind.name, arguments⟩ kind ((ofKind kind).build ⟨kind.name, arguments⟩) := by
  refine makes_of_holds fun name converter hmem => ?_
  obtain ⟨parameter, hparameter, heq⟩ := List.mem_map.mp hmem
  obtain ⟨rfl, rfl⟩ := Prod.mk.inj heq
  cases h with
  | ok _ hlength hfits => exact holds_of_fits (nodup_names kind) hlength hfits hparameter

/-- A constructor fails over one of its parameters, and over nothing else. -/
theorem construct_ne_unknownType {kind : PrimitiveKind} {e : ConstructError}
    (h : (ofKind kind).construct settings positional properties = .error e) (typeName : String) :
    e ≠ .unknownType typeName := by
  have hbinds := bindAll_binds settings kind.name properties (ofKind kind).parameters positional
  rw [Constructor.construct, Constructor.bind, typeName_ofKind] at h
  generalize bindAll settings kind.name properties (ofKind kind).parameters positional = r
    at hbinds h
  cases r with
  | error other =>
    obtain rfl := Except.error.inj h
    cases hbinds with
    | error _ _ _ _ _ hrefuses => cases hrefuses <;> nofun
  | ok arguments =>
    have hmakes := makes_of_binds hbinds
    change (ofKind kind).build ⟨kind.name, arguments⟩ = .error e at h
    rw [h] at hmakes
    cases hmakes
    nofun

/-- Binding gives each declared parameter of a constructor the argument that its value is converted
to, and the constructor makes a primitive of them, unless it is a polygon without points; or binding
fails, at the first parameter whose value is null or cannot be converted. -/
theorem bind_makes (kind : PrimitiveKind) (settings : Settings) (positional : List Value)
    (properties : PropertyMap) :
    (∃ arguments,
      Binds settings kind.name properties (ofKind kind).parameters positional (.ok arguments) ∧
      (ofKind kind).bind settings positional properties = .ok ⟨kind.name, arguments⟩ ∧
      Makes ⟨kind.name, arguments⟩ kind
        ((ofKind kind).construct settings positional properties)) ∨
    ∃ e, Binds settings kind.name properties (ofKind kind).parameters positional (.error e) ∧
      (ofKind kind).bind settings positional properties = .error e ∧
      (ofKind kind).construct settings positional properties = .error e := by
  have hbinds := bindAll_binds settings kind.name properties (ofKind kind).parameters positional
  rw [Constructor.construct, Constructor.bind, typeName_ofKind]
  generalize bindAll settings kind.name properties (ofKind kind).parameters positional = r
    at hbinds ⊢
  cases r with
  | error e => exact .inr ⟨e, hbinds, rfl, rfl⟩
  | ok arguments => exact .inl ⟨arguments, hbinds, rfl, makes_of_binds hbinds⟩

end Animatic.Construct
