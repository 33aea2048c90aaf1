import Animatic.Proofs.Session.Handlers

/-!
# Contracts

A contract says what holds of a world, what a world may lead to, and which objects are known in it.
What a script is given to work with are known objects; if the steps of evaluation keep the contract
then all evaluation keeps it and holds known objects only.

* `Contract.Meets`: what a computation keeps, from one world on.
* `Contract.Steady`, `Contract.Lawful`: the steps.
* `Contract.Lawful.eval`, `Contract.Lawful.exec`: expressions and statements.
* `Contract.Lawful.watchedCallees`: calls, by recursion on the levels that are left.
-/

namespace Animatic

open Script Play Playback Session

/-- Something that is kept along a run. -/
structure Contract where
  /-- What holds of a world. -/
  Inv : World Session → Prop
  /-- What a world may lead to. -/
  Leads : World Session → World Session → Prop
  /-- The objects that may be used in a world. -/
  Known : World Session → ObjectRef → Prop
  /-- Whether a run may end early. -/
  Faulty : Prop

namespace Contract

variable {α β : Type} (C : Contract)

/-- A world may lead to another one where the contract holds as well. -/
structure Keeps (world next : World Session) : Prop where
  inv : C.Inv next
  leads : C.Leads world next

/-- A computation in a world where the contract holds keeps it, and what it gives has a property. -/
structure Meets (world : World Session) (m : Play α) (Q : World Session → α → Prop) : Prop where
  ok : ∀ a next, C.Inv world → m.run world = .ok (a, next) → C.Keeps world next ∧ Q next a
  error : ∀ fault, C.Inv world → m.run world = .error fault → C.Faulty

/-- A computation that keeps the contract. -/
abbrev Safe (world : World Session) (m : Play α) : Prop := C.Meets world m fun _ _ => True

/-- A computation that keeps the contract and whose value holds known objects only. -/
abbrev Yields (world : World Session) (m : Play Value) : Prop :=
  C.Meets world m fun next value => value.Within (C.Known next)

/-- A computation that keeps the contract, and what it leaves with holds known objects only. -/
abbrev Leaves (world : World Session) (m : Play Flow) : Prop :=
  C.Meets world m fun next flow => match flow with
    | .normal => True
    | .leave value => value.Within (C.Known next)

/-- A contract that is kept along computations and where nothing is done. -/
structure Steady : Prop where
  refl : ∀ world, C.Leads world world
  trans : ∀ {world middle next}, C.Leads world middle → C.Leads middle next → C.Leads world next
  known : ∀ {world next}, C.Leads world next → ∀ object, C.Known world object → C.Known next object
  idle : ∀ {world next}, C.Inv world → Idle world next → C.Keeps world next

/-- A contract that is kept by the steps of evaluation. -/
structure Lawful : Prop extends C.Steady where
  scopes : ∀ {world}, C.Inv world → world.host.scopes.Within (C.Known world)
  properties : ∀ {world}, C.Inv world → ∀ object,
    (world.host.propertiesOf object).Within (C.Known world)
  booked : ∀ {world arguments}, C.Inv world → arguments.Within (C.Known world) →
    ∀ booking : Booking,
      C.Keeps world { world with scene := booking.enter arguments world.scene }
  constructed : ∀ {world properties object next}, C.Inv world →
    properties.Within (C.Known world) → Constructed properties world object next →
    C.Keeps world next ∧ C.Known next object
  rebound : ∀ {world scopes}, C.Inv world → scopes.Within (C.Known world) → ∀ depth,
    C.Keeps world { world with host := { world.host with scopes, depth } }
  setProperty : ∀ {world object value}, C.Inv world → C.Known world object →
    value.Within (C.Known world) → ∀ name,
    C.Keeps world { world with host := world.host.setProperty object name value }
  elapse : ∀ {invoke : Invoker Session},
    (∀ world call, (∀ value ∈ call.arguments, value.Within (C.Known world)) →
      C.Safe world (invoke call)) →
    ∀ world seconds, C.Safe world (elapse invoke seconds)

/-- Calls that keep a contract if they are given known objects only. -/
structure Serves (c : Callees) : Prop where
  call : ∀ {world arguments}, arguments.Within (C.Known world) → ∀ function,
    C.Yields world (c.call function arguments)
  invoke : ∀ {world call}, (∀ value ∈ call.arguments, value.Within (C.Known world)) →
    C.Safe world (c.invoke call)
  watch : ∀ world stmt, C.Safe world (c.watch stmt)

/-! ## Composition -/

variable {C} {world : World Session}

theorem Meets.of_inv {m : Play α} {Q : World Session → α → Prop}
    (h : C.Inv world → C.Meets world m Q) : C.Meets world m Q :=
  ⟨fun a next hinv => (h hinv).ok a next hinv, fun fault hinv => (h hinv).error fault hinv⟩

/-- A computation that ends. -/
theorem Meets.of_ok {m : Play α} {Q : World Session → α → Prop} {a : α} {next : World Session}
    (hrun : m.run world = .ok (a, next)) (h : C.Inv world → C.Keeps world next ∧ Q next a) :
    C.Meets world m Q := by
  refine ⟨fun b last hinv hrun' => ?_, fun fault _ hrun' => ?_⟩
  · obtain ⟨rfl, rfl⟩ := Prod.mk.inj (Except.ok.inj (hrun.symm.trans hrun'))
    exact h hinv
  · cases hrun.symm.trans hrun'

/-- The session is looked at. -/
theorem session_bind {f : Session → Play α} {Q : World Session → α → Prop}
    (h : C.Meets world (f world.host) Q) : C.Meets world (session >>= f) Q := ⟨h.ok, h.error⟩

/-- The scene is looked at. -/
theorem scene_bind {f : Scene → Play α} {Q : World Session → α → Prop}
    (h : C.Meets world (f world.scene) Q) : C.Meets world (Playback.scene >>= f) Q :=
  ⟨h.ok, h.error⟩

theorem safe_changeScene {f : Scene → Scene}
    (h : C.Inv world → C.Keeps world { world with scene := f world.scene }) :
    C.Safe world (changeScene f) := .of_ok rfl fun hinv => ⟨h hinv, trivial⟩

theorem safe_changeSession {f : Session → Session}
    (h : C.Inv world → C.Keeps world { world with host := f world.host }) :
    C.Safe world (changeSession f) := .of_ok rfl fun hinv => ⟨h hinv, trivial⟩

namespace Steady

variable (hC : C.Steady)

include hC

theorem keeps_refl (hinv : C.Inv world) : C.Keeps world world := ⟨hinv, hC.refl world⟩

theorem pure {a : α} {Q : World Session → α → Prop} (h : Q world a) :
    C.Meets world (pure a) Q := .of_ok rfl fun hinv => ⟨hC.keeps_refl hinv, h⟩

theorem bind {m : Play α} {f : α → Play β} {Q : World Session → α → Prop}
    {R : World Session → β → Prop} (hm : C.Meets world m Q)
    (hf : ∀ a next, C.Leads world next → Q next a → C.Meets next (f a) R) :
    C.Meets world (m >>= f) R := by
  refine ⟨fun b last hinv hrun => ?_, fun fault hinv hrun => ?_⟩
  · obtain ⟨a, middle, hfirst, hsecond⟩ := run_bind_eq_ok hrun
    obtain ⟨hmiddle, hq⟩ := hm.ok a middle hinv hfirst
    obtain ⟨hlast, hr⟩ := (hf a middle hmiddle.leads hq).ok b last hmiddle.inv hsecond
    exact ⟨⟨hlast.inv, hC.trans hmiddle.leads hlast.leads⟩, hr⟩
  · cases hfirst : m.run world with
    | error e => exact hm.error e hinv hfirst
    | ok result =>
      rw [run_bind_of_eq_ok hfirst] at hrun
      obtain ⟨hmiddle, hq⟩ := hm.ok result.1 result.2 hinv hfirst
      exact (hf result.1 result.2 hmiddle.leads hq).error fault hmiddle.inv hrun

theorem idles {m : Play α} (h : Idles m) : C.Safe world m := by
  obtain ⟨a, next, hrun, hidle⟩ := h world
  exact .of_ok hrun fun hinv => ⟨hC.idle hinv hidle, trivial⟩

end Steady

namespace Lawful

variable (hC : C.Lawful)

include hC

/-- What a handler does keeps the contract. -/
theorem handles {arguments : Arguments} {m : Play Value}
    (h : Handles (C.Known world) arguments m) (harguments : arguments.Within (C.Known world)) :
    C.Yields world m := by
  obtain ⟨value, next, hrun, hhandled, hvalue⟩ := h world
  have hkeeps (hinv : C.Inv world) : C.Keeps world next := by
    cases hhandled with
    | idle hidle => exact hC.idle hinv hidle
    | @booked middle hidle booking =>
      have hmiddle := hC.idle hinv hidle
      have hbooked := hC.booked hmiddle.inv (harguments.imp (hC.known hmiddle.leads)) booking
      exact ⟨hbooked.inv, hC.trans hmiddle.leads hbooked.leads⟩
  exact .of_ok hrun fun hinv => ⟨hkeeps hinv, hvalue.imp (hC.known (hkeeps hinv).leads)⟩

theorem miss (what : String) : C.Yields world (miss what) :=
  hC.handles (handles_miss what) Arguments.within_empty

theorem logOne_null (level : LogLevel) (message : String) :
    C.Yields world (logOne level message >>= fun _ => Pure.pure .null) :=
  hC.bind (hC.idles (idles_rules.logOne _ _)) fun _ _ _ _ =>
    hC.pure (Value.within_of_objects_nil rfl)

/-! ## Waiting, constructing and looking up -/

section

variable {c : Callees} (hc : C.Serves c)

include hc

theorem wait (seconds : Float) : C.Safe world (Session.wait c.invoke seconds) := by
  refine hC.bind (hC.elapse (fun _ _ => hc.invoke) world seconds) fun result _ _ _ => ?_
  split
  · exact hC.pure trivial
  · exact hC.idles (idles_rules.logOne _ _)

omit hc in
theorem construct (typeName : String) {arguments : Arguments} {properties : PropertyMap}
    (harguments : arguments.Within (C.Known world))
    (hproperties : properties.Within (C.Known world)) :
    C.Yields world (Session.construct Standard.commands typeName arguments properties) := by
  obtain ⟨object, next, hrun, hconstructed⟩ := construct_run typeName arguments properties world
  refine .of_ok hrun fun hinv => ?_
  obtain ⟨hkeeps, hknown⟩ := hC.constructed hinv
    (within_constructionProperties _ harguments hproperties) hconstructed
  exact ⟨hkeeps, Value.within_object.mpr hknown⟩

omit hc in
private theorem member (object : ObjectRef) (name : String) :
    C.Yields world (Session.member object name) := by
  refine .of_inv fun hinv => session_bind ?_
  split
  · rename_i value hvalue
    exact hC.pure ((hC.properties hinv object).get? hvalue)
  · refine hC.bind (hC.idles idles_scene) fun scene _ _ _ => ?_
    split <;> exact hC.pure (Value.within_of_objects_nil rfl)

omit hc in
private theorem variableValue (position : Position) (name : String) :
    C.Yields world (Session.variableValue position name) := by
  refine .of_inv fun hinv => session_bind ?_
  split
  · rename_i value hvalue
    exact hC.pure ((hC.scopes hinv).get? hvalue)
  · exact hC.logOne_null _ _

/-! ## Calling -/

variable {arguments : Arguments} (harguments : arguments.Within (C.Known world))

include harguments

omit hc in
theorem callMethod {object : ObjectRef} (hobject : C.Known world object) (method : String) :
    C.Yields world (Session.callMethod Standard.commands object method arguments) := by
  unfold Session.callMethod
  split
  · rename_i handler hfound
    obtain ⟨operation, rfl⟩ := Standard.exists_of_resolve? hfound
    exact hC.handles (Standard.handles_method hobject harguments operation) harguments
  · exact hC.miss _

omit hc in
private theorem callMember {target : Value} (htarget : target.Within (C.Known world))
    (name : String) :
    C.Yields world (Session.callMember Standard.commands target name arguments) := by
  unfold Session.callMember
  split
  · exact hC.callMethod harguments (Value.within_object.mp htarget) name
  · exact hC.miss _

private theorem callGlobal {name : String} {handler : Global}
    (hfound : Standard.commands.global? name = some handler) :
    C.Yields world (handler (Session.wait c.invoke) arguments) := by
  obtain ⟨listed, hlisted, rfl⟩ := Standard.exists_of_global? hfound
  by_cases hwait : listed.2 = Standard.wait
  · rw [hwait, Standard.wait]
    exact hC.bind (hC.wait hc _) fun _ _ _ _ => hC.pure (Value.within_of_objects_nil rfl)
  · exact hC.handles (Standard.handles_global hlisted hwait harguments _) harguments

private theorem callNamed (name : String) :
    C.Yields world (Session.callNamed Standard.commands c name arguments) := by
  refine session_bind ?_
  split
  · exact hc.call harguments _
  · split
    · rename_i handler hfound
      exact hC.callGlobal hc harguments hfound
    · split
      · exact hC.construct name harguments PropertyMap.within_empty
      · exact hC.miss _

private theorem callValue (callee : Value) :
    C.Yields world (Session.callValue c callee arguments) := by
  unfold Session.callValue
  split
  · exact hc.call harguments _
  · exact hC.miss _

end

/-! ## Expressions -/

section

variable {c : Callees} (hc : C.Serves c)

include hc

set_option linter.unusedSectionVars false in
mutual

/-- Evaluating an expression keeps the contract, and its value holds known objects only. -/
theorem eval : (e : Expr) → {world : World Session} →
    C.Yields world (Session.eval Standard.commands c e)
  | .number _ _, _ | .bool _ _, _ | .text _ _, _ => by
    simp only [Session.eval]
    exact hC.pure (Value.within_of_objects_nil rfl)
  | .array _ items, _ => by
    simp only [Session.eval]
    exact hC.bind (evalAll items) fun _ _ _ h => hC.pure (Value.within_array.mpr h)
  | .name position name, _ => by
    simp only [Session.eval]
    exact hC.variableValue position name
  | .binary _ op lhs rhs, _ => by
    simp only [Session.eval]
    exact hC.bind (eval lhs) fun _ _ _ _ => hC.bind (eval rhs) fun _ _ _ _ =>
      hC.pure (Value.within_binary op _ _)
  | .unary _ op operand, _ => by
    simp only [Session.eval]
    exact hC.bind (eval operand) fun _ _ _ _ => hC.pure (Value.within_unary op _)
  | .member _ target name, _ => by
    simp only [Session.eval]
    refine hC.bind (eval target) fun value _ _ _ => ?_
    split
    · exact hC.member _ name
    · exact hC.pure (Value.within_of_objects_nil rfl)
  | .call _ callee arguments, _ => by
    have hcallee {world : World Session} := @eval callee world
    have harguments {world : World Session} := @evalArguments arguments world
    cases callee with
    | member _ target name =>
      simp only [Session.eval]
      refine hC.bind (eval target) fun value _ _ hvalue => ?_
      refine hC.bind harguments fun _ _ hleads hgiven => ?_
      exact hC.callMember hgiven (hvalue.imp (hC.known hleads)) name
    | name _ name =>
      simp only [Session.eval]
      exact hC.bind harguments fun _ _ _ hgiven => hC.callNamed hc hgiven name
    | _ =>
      simp only [Session.eval] at hcallee ⊢
      refine hC.bind hcallee fun value _ _ _ => ?_
      exact hC.bind harguments fun _ _ _ hgiven => hC.callValue hc hgiven value
  | .construct _ typeName arguments properties, _ => by
    simp only [Session.eval]
    refine hC.bind (evalArguments arguments) fun _ _ _ hgiven => ?_
    refine hC.bind (evalProperties properties) fun _ _ hleads hproperties => ?_
    exact hC.construct typeName (hgiven.imp (hC.known hleads))
      (PropertyMap.within_ofList hproperties)
  | .interpolated _ parts, _ => by
    simp only [Session.eval]
    exact hC.bind (evalParts parts) fun _ _ _ _ => hC.pure (Value.within_of_objects_nil rfl)

private theorem evalAll : (items : List Expr) → {world : World Session} →
    C.Meets world (Session.evalAll Standard.commands c items) fun next values =>
      ∀ value ∈ values, value.Within (C.Known next)
  | [], _ => by
    simp only [Session.evalAll]
    exact hC.pure nofun
  | first :: rest, _ => by
    simp only [Session.evalAll]
    refine hC.bind (eval first) fun value _ _ hvalue => ?_
    refine hC.bind (evalAll rest) fun values _ hleads hvalues => hC.pure ?_
    exact List.forall_mem_cons.mpr ⟨hvalue.imp (hC.known hleads), hvalues⟩

private theorem evalArguments : (arguments : List Argument) → {world : World Session} →
    C.Meets world (Session.evalArguments Standard.commands c arguments) fun next given =>
      given.Within (C.Known next)
  | [], _ => by
    simp only [Session.evalArguments]
    exact hC.pure Arguments.within_empty
  | .positional value :: rest, _ => by
    simp only [Session.evalArguments]
    refine hC.bind (eval value) fun _ _ _ hvalue => ?_
    refine hC.bind (evalArguments rest) fun _ _ hleads hgiven => hC.pure ?_
    exact ⟨List.forall_mem_cons.mpr ⟨hvalue.imp (hC.known hleads), hgiven.positional⟩,
      hgiven.named⟩
  | .named _ value :: rest, _ => by
    simp only [Session.evalArguments]
    refine hC.bind (eval value) fun _ _ _ hvalue => ?_
    refine hC.bind (evalArguments rest) fun _ _ hleads hgiven => hC.pure ?_
    exact ⟨hgiven.positional,
      List.forall_mem_cons.mpr ⟨hvalue.imp (hC.known hleads), hgiven.named⟩⟩

private theorem evalProperties : (properties : List PropertyInit) → {world : World Session} →
    C.Meets world (Session.evalProperties Standard.commands c properties) fun next entries =>
      NamedWithin (C.Known next) entries
  | [], _ => by
    simp only [Session.evalProperties]
    exact hC.pure nofun
  | .mk name value :: rest, _ => by
    simp only [Session.evalProperties]
    refine hC.bind (eval value) fun _ _ _ hvalue => ?_
    refine hC.bind (evalProperties rest) fun _ _ hleads hentries => hC.pure ?_
    exact List.forall_mem_cons.mpr ⟨hvalue.imp (hC.known hleads), hentries⟩

private theorem evalParts : (parts : List Part) → {world : World Session} →
    C.Safe world (Session.evalParts Standard.commands c parts)
  | [], _ => by
    simp only [Session.evalParts]
    exact hC.pure trivial
  | .text run :: rest, _ => by
    simp only [Session.evalParts]
    exact hC.bind (evalParts rest) fun _ _ _ _ => hC.pure trivial
  | .expr value :: rest, _ => by
    simp only [Session.evalParts]
    exact hC.bind (eval value) fun _ _ _ _ => hC.bind (evalParts rest) fun _ _ _ _ =>
      hC.pure trivial

end

/-! ## Statements -/

private theorem assign (target : Expr) {value : Value} (hvalue : value.Within (C.Known world)) :
    C.Safe world (Session.assign Standard.commands c target value) := by
  unfold Session.assign
  split
  · refine safe_changeSession fun hinv => ?_
    exact hC.rebound hinv ((hC.scopes hinv).assign _ hvalue) _
  · refine hC.bind (hC.eval hc _) fun owner next hleads howner => ?_
    split
    · refine safe_changeSession fun hinv => ?_
      exact hC.setProperty hinv (Value.within_object.mp howner) (hvalue.imp (hC.known hleads)) _
    · exact hC.idles (idles_rules.logOne _ _)
  · exact hC.idles (idles_rules.logOne _ _)

omit hc in
private theorem iterate {body : Play Flow} (hbody : ∀ world, C.Leaves world body)
    (count : Nat) : C.Leaves world (Session.iterate body count) := by
  induction count generalizing world with
  | zero => exact hC.pure trivial
  | succ count ih =>
    refine hC.bind (hbody world) fun flow _ _ hflow => ?_
    cases flow with
    | leave value => exact hC.pure hflow
    | normal => exact ih

set_option linter.unusedSectionVars false in
mutual

/-- Running a statement keeps the contract, and what it leaves with holds known objects only. -/
theorem exec : (stmt : Stmt) → {world : World Session} →
    C.Leaves world (Session.exec Standard.commands c stmt)
  | .assign _ target value, world => by
    simp only [Session.exec]
    refine hC.bind (hc.watch world _) fun _ _ _ _ => ?_
    refine hC.bind (hC.eval hc value) fun _ _ _ hvalue => ?_
    exact hC.bind (hC.assign hc target hvalue) fun _ _ _ _ => hC.pure trivial
  | .expr _ value, world => by
    simp only [Session.exec]
    refine hC.bind (hc.watch world _) fun _ _ _ _ => ?_
    exact hC.bind (hC.eval hc value) fun _ _ _ _ => hC.pure trivial
  | .wait _ seconds, world => by
    simp only [Session.exec]
    refine hC.bind (hc.watch world _) fun _ _ _ _ => ?_
    refine hC.bind (hC.eval hc seconds) fun _ _ _ _ => ?_
    exact hC.bind (hC.wait hc _) fun _ _ _ _ => hC.pure trivial
  | .loop _ count body, world => by
    simp only [Session.exec]
    refine hC.bind (hc.watch world _) fun _ _ _ _ => ?_
    refine hC.bind (hC.eval hc count) fun _ _ _ _ => ?_
    exact hC.iterate (fun _ => execAll body) _
  | .define _ name parameters body, world => by
    simp only [Session.exec]
    refine hC.bind (hc.watch world _) fun _ _ _ _ => ?_
    refine hC.bind (safe_changeSession fun hinv => ?_) fun _ _ _ _ => hC.pure trivial
    exact hC.rebound hinv ((hC.scopes hinv).assign _ (Value.within_of_objects_nil rfl)) _
  | .leave _ none, world => by
    simp only [Session.exec]
    exact hC.bind (hc.watch world _) fun _ _ _ _ => hC.pure (Value.within_of_objects_nil rfl)
  | .leave _ (some value), world => by
    simp only [Session.exec]
    refine hC.bind (hc.watch world _) fun _ _ _ _ => ?_
    exact hC.bind (hC.eval hc value) fun _ _ _ hvalue => hC.pure hvalue

private theorem execAll : (body : List Stmt) → {world : World Session} →
    C.Leaves world (Session.execAll Standard.commands c body)
  | [], _ => by
    simp only [Session.execAll]
    exact hC.pure trivial
  | first :: rest, _ => by
    simp only [Session.execAll]
    refine hC.bind (exec first) fun flow _ _ hflow => ?_
    cases flow with
    | leave value => exact hC.pure hflow
    | normal => exact execAll rest

end

private theorem runAll (statements : List Stmt) :
    C.Safe world (Session.runAll Standard.commands c statements) := by
  induction statements generalizing world with
  | nil => exact hC.pure trivial
  | cons first rest ih =>
    refine hC.bind (hC.exec hc first) fun flow _ _ _ => ?_
    cases flow with
    | leave value => exact hC.idles (idles_rules.logOne _ _)
    | normal => exact ih

/-! ## Calls of functions -/

omit hc in
private theorem refuse (function : Function) : C.Yields world (Session.refuse function) :=
  hC.logOne_null _ _

theorem callFunction (function : Function) {arguments : Arguments}
    (harguments : arguments.Within (C.Known world)) :
    C.Yields world (Session.callFunction Standard.commands c function arguments) := by
  refine session_bind ?_
  split
  · exact hC.refuse function
  · refine hC.bind (safe_changeSession fun hinv => ?_) fun _ _ _ _ => ?_
    · refine hC.rebound hinv ?_ _
      exact (hC.scopes hinv).push.assignAll
        (within_bindParameters _ harguments.positional harguments.named)
    · refine hC.bind (hC.execAll hc function.body) fun flow _ _ hflow => ?_
      refine hC.bind (safe_changeSession fun hinv => ?_) fun _ _ hleads _ => ?_
      · exact hC.rebound hinv (hC.scopes hinv).pop _
      · cases flow with
        | leave value => exact hC.pure (hflow.imp (hC.known hleads))
        | normal => exact hC.pure (Value.within_of_objects_nil rfl)

theorem invokeFunction {call : Invocation}
    (harguments : ∀ value ∈ call.arguments, value.Within (C.Known world)) :
    C.Safe world (Session.invokeFunction Standard.commands c call) := by
  refine session_bind ?_
  split
  · exact hC.pure trivial
  · exact hC.bind (hC.callFunction hc _ (Arguments.within_ofList harguments)) fun _ _ _ _ =>
      hC.pure trivial

omit hc in
/-- All calls keep the contract. -/
theorem watchedCallees {watch : Stmt → Play Unit} (hwatch : ∀ world stmt, C.Safe world (watch stmt))
    (levels : Nat) : C.Serves (Session.watchedCallees Standard.commands watch levels) := by
  induction levels with
  | zero => exact ⟨fun _ function => hC.refuse function, fun _ => hC.pure trivial, hwatch⟩
  | succ levels ih =>
    exact ⟨fun h function => hC.callFunction ih function h, hC.invokeFunction ih, hwatch⟩

omit hc in
theorem callees (levels : Nat) : C.Serves (Session.callees Standard.commands levels) :=
  hC.watchedCallees (fun _ _ => hC.pure trivial) levels

omit hc in
/-- Running a script keeps the contract. -/
theorem run (statements : List Stmt) : C.Safe world (Session.run Standard.commands statements) :=
  hC.runAll (hC.callees depthLimit) statements

end

end Lawful

end Contract

end Animatic
