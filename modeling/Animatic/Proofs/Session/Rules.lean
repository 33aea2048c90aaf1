import Animatic.Proofs.Session.Commands
import Animatic.Session.Eval

/-!
# Rules for evaluation

A property of computations on a session holds of all evaluation if it is built up along them and
holds of the few steps that evaluation is made of.

* `Session.KeepsOutput`: changes of a session that take back nothing printed.
* `Play.Rules`: the steps, those of commands among them.
* `Play.Rules.standard`: the standard commands.
* `Play.Rules.eval`, `Play.Rules.exec`: expressions and statements.
* `Play.Rules.watchedCallees`: calls, by recursion on the levels that are left.
-/

namespace Animatic

open Script Play Playback Session

/-- A change of a session that takes back no line that has been printed. -/
def Session.KeepsOutput (f : Session → Session) : Prop :=
  ∀ session, session.output.toList <+: (f session).output.toList

theorem Session.keepsOutput_of_eq {f : Session → Session}
    (h : ∀ session, (f session).output = session.output) : KeepsOutput f := by
  intro session
  simp [h session]

theorem Session.output_setProperty (session : Session) (object : ObjectRef) (name : String)
    (value : Value) : (session.setProperty object name value).output = session.output := by
  unfold setProperty
  split <;> rfl

/-- A property of computations that holds of the steps of evaluation and is built up along them. -/
structure Play.Rules (K : ∀ {α : Type}, Play α → Prop) : Prop extends Play.SchedulingRules K where
  changeSession : ∀ f, KeepsOutput f → K (Play.changeSession f)
  buildHost : ∀ typeName positional properties, K (buildHost typeName positional properties)
  commonProperties : ∀ object, K (Standard.commonProperties object)
  elapse : ∀ {invoke : Invoker Session}, (∀ call, K (invoke call)) → ∀ seconds,
    K (elapse invoke seconds)

/-- Commands of which a property holds, however they are told to wait. -/
structure Commands.Obeys (K : ∀ {α : Type}, Play α → Prop) (commands : Commands) : Prop where
  method : ∀ {typeName method handler}, commands.resolve? typeName method = some handler →
    ∀ object arguments, K (handler object arguments)
  global : ∀ {name handler}, commands.global? name = some handler →
    ∀ wait : Float → Play Unit, (∀ seconds, K (wait seconds)) →
      ∀ arguments, K (handler wait arguments)
  hook : ∀ {typeName hook}, commands.hook? typeName = some hook → ∀ object, K (hook object)

/-- Calls of which a property holds. -/
structure Callees.Obey (K : ∀ {α : Type}, Play α → Prop) (c : Callees) : Prop where
  call : ∀ function arguments, K (c.call function arguments)
  invoke : ∀ call, K (c.invoke call)
  watch : ∀ stmt, K (c.watch stmt)

namespace Play.Rules

variable {K : ∀ {α : Type}, Play α → Prop} (hK : Rules K)

include hK

theorem print (line : String) : K (Play.print line) :=
  hK.bind (hK.logOne _ _) fun _ => hK.changeSession _ fun session => by simp

theorem miss (what : String) : K (Play.miss what) :=
  hK.bind (hK.changeSession _ (keepsOutput_of_eq fun _ => rfl)) fun _ =>
    hK.bind (hK.logOne _ _) fun _ => hK.pure _

/-! ## Standard commands -/

private theorem add (wait : Float → Play Unit) (arguments : Arguments) :
    K (Standard.add wait arguments) := by
  refine hK.bind (hK.hostsOfAll _ _) fun _ => hK.bind (hK.scheduleAll _ _) fun _ => ?_
  split <;> exact hK.pure _

private theorem scheduleCall (wait : Float → Play Unit) (arguments : Arguments) :
    K (Standard.scheduleCall wait arguments) := by
  refine hK.bind (hK.scheduledFunction _) fun function => ?_
  cases function with
  | none => exact hK.pure _
  | some f => exact hK.bind (hK.schedule _ _) fun _ => hK.pure _

private theorem random (wait : Float → Play Unit) (arguments : Arguments) :
    K (Standard.random wait arguments) := by
  unfold Standard.random
  dsimp only
  split
  · exact hK.pure _
  · split
    · exact hK.pure _
    · exact hK.bind hK.session fun _ =>
        hK.bind (hK.changeSession _ (keepsOutput_of_eq fun _ => rfl)) fun _ => hK.pure _

/-- A global command lets time pass only by the waiting that it is given. -/
theorem global {entry : String × Global} (h : entry ∈ Standard.globals) {wait : Float → Play Unit}
    (hwait : ∀ seconds, K (wait seconds)) (arguments : Arguments) :
    K (entry.2 wait arguments) := by
  simp only [Standard.globals, List.mem_cons, List.not_mem_nil, or_false] at h
  rcases h with rfl | rfl | rfl | rfl | rfl | rfl | rfl | rfl | rfl | rfl
  · exact hK.add wait arguments
  · exact hK.bind (hK.hostsOfAll _ _) fun _ => hK.bind (hK.scheduleAll _ _) fun _ => hK.pure _
  · exact hK.bind (hwait _) fun _ => hK.pure _
  · exact hK.scheduleCall wait arguments
  · exact hK.bind (hK.print _) fun _ => hK.pure _
  · exact hK.bind (hK.print _) fun _ => hK.pure _
  · exact hK.random wait arguments
  · exact hK.pure _
  · exact hK.pure _
  · exact hK.look fun _ _ => rfl

end Play.Rules

namespace Standard

/-- What is registered for methods, globals and constructions. -/
private structure Registered (commands : Commands) : Prop where
  method : ∀ entry ∈ commands.methods, ∃ operation, entry.2 = Standard.method operation
  global : ∀ entry ∈ commands.globals, ∃ listed ∈ globals, entry.2 = listed.2
  hook : ∀ entry ∈ commands.hooks, entry.2 = commonProperties

private theorem registered_commands : Registered commands := by
  unfold commands
  refine List.foldlRecOn _ _ (List.foldlRecOn _ _ (List.foldlRecOn _ _ ?_ ?_) ?_) ?_
  · exact ⟨nofun, nofun, nofun⟩
  · refine fun registry h listed hlisted => ⟨h.method, fun entry hmem => ?_, h.hook⟩
    rcases mem_associate hmem with heq | hold
    · exact ⟨listed, hlisted, heq⟩
    · exact h.global entry hold
  · refine fun registry h listed _ => ⟨fun entry hmem => ?_, h.global, h.hook⟩
    rcases mem_associate hmem with heq | hold
    · exact ⟨listed.2, heq⟩
    · exact h.method entry hold
  · refine fun registry h _ _ => ⟨h.method, h.global, fun entry hmem => ?_⟩
    rcases mem_associate hmem with heq | hold
    · exact heq
    · exact h.hook entry hold

/-- A method that is found does an operation. -/
theorem exists_of_resolve? {typeName name : String} {handler : Method}
    (h : commands.resolve? typeName name = some handler) :
    ∃ operation, handler = Standard.method operation := by
  simp only [Registry.resolve?, Option.bind_eq_bind, Option.bind_eq_some_iff] at h
  obtain ⟨kind, -, operation, -, hfound⟩ := h
  have hlisted : ∃ tag, (tag, handler) ∈ commands.methods := by
    rcases Option.or_eq_some_iff.mp hfound with hfound | ⟨-, hfound⟩
    · exact ⟨_, Commands.Scoped.mem_of_lookup hfound⟩
    · exact ⟨_, Commands.Scoped.mem_of_lookup hfound⟩
  obtain ⟨_, hmem⟩ := hlisted
  exact registered_commands.method _ hmem

/-- A global command that is found is one of the list. -/
theorem exists_of_global? {name : String} {handler : Global}
    (h : commands.global? name = some handler) : ∃ listed ∈ globals, handler = listed.2 :=
  registered_commands.global _ (Commands.Scoped.mem_of_lookup h)

/-- What is found to be done with a new object applies its properties. -/
theorem eq_of_hook? {typeName : String} {hook : Hook}
    (h : commands.hook? typeName = some hook) : hook = commonProperties :=
  registered_commands.hook _ (Commands.Scoped.mem_of_lookup h)

end Standard

namespace Play.Rules

variable {K : ∀ {α : Type}, Play α → Prop} (hK : Rules K)

include hK

/-- The standard commands are made of the same steps as evaluation. -/
theorem standard : Commands.Obeys K Standard.commands where
  method {typeName method handler} hfound object arguments := by
    obtain ⟨operation, rfl⟩ := Standard.exists_of_resolve? hfound
    exact hK.method operation object arguments
  global {name handler} hfound wait hwait arguments := by
    obtain ⟨listed, hlisted, rfl⟩ := Standard.exists_of_global? hfound
    exact hK.global hlisted hwait arguments
  hook {typeName hook} hfound object := by
    obtain rfl := Standard.eq_of_hook? hfound
    exact hK.commonProperties object

/-! ## Waiting, constructing and calling -/

theorem wait {invoke : Invoker Session} (h : ∀ call, K (invoke call)) (seconds : Float) :
    K (Session.wait invoke seconds) := by
  refine hK.bind (hK.elapse h seconds) fun result => ?_
  split
  · exact hK.pure _
  · exact hK.logOne _ _

section

variable {commands : Commands} (hcommands : commands.Obeys K)

include hcommands

theorem construct (typeName : String) (arguments : Arguments) (properties : PropertyMap) :
    K (Session.construct commands typeName arguments properties) := by
  refine hK.bind hK.session fun session => hK.bind (hK.buildHost _ _ _) fun host => ?_
  refine hK.bind (hK.changeSession _ (keepsOutput_of_eq fun _ => rfl)) fun _ => ?_
  refine hK.bind ?_ fun _ => hK.pure _
  unfold runHook
  split
  · rename_i hook hfound
    exact hcommands.hook hfound _
  · exact hK.pure _

omit hcommands in
private theorem member (object : ObjectRef) (name : String) : K (Session.member object name) := by
  refine hK.bind hK.session fun session => ?_
  split
  · exact hK.pure _
  · let view (scene : Scene) : Value :=
      ((object.host.bind scene.get?).bind fun p =>
        (Channel.ofName? name).map fun channel => .number (p.get channel)).getD .null
    have hlook : K (Playback.scene >>= fun scene => pure (view scene)) := hK.look fun _ _ => rfl
    refine cast (congrArg (fun f => K (Playback.scene >>= f)) (funext fun scene => ?_)) hlook
    dsimp only [view]
    cases object.host.bind scene.get? <;> cases Channel.ofName? name <;> rfl

omit hcommands in
private theorem variableValue (position : Position) (name : String) :
    K (Session.variableValue position name) := by
  refine hK.bind hK.session fun session => ?_
  split
  · exact hK.pure _
  · exact hK.bind (hK.logOne _ _) fun _ => hK.pure _

theorem callMethod (object : ObjectRef) (method : String) (arguments : Arguments) :
    K (Session.callMethod commands object method arguments) := by
  unfold Session.callMethod
  split
  · rename_i handler hfound
    exact hcommands.method hfound object arguments
  · exact hK.miss _

private theorem callMember (target : Value) (name : String) (arguments : Arguments) :
    K (Session.callMember commands target name arguments) := by
  unfold Session.callMember
  split
  · exact hK.callMethod hcommands _ _ _
  · exact hK.miss _

variable {c : Callees} (hc : c.Obey K)

include hc

private theorem callNamed (name : String) (arguments : Arguments) :
    K (Session.callNamed commands c name arguments) := by
  refine hK.bind hK.session fun session => ?_
  split
  · exact hc.call _ arguments
  · split
    · rename_i handler hfound
      exact hcommands.global hfound _ (hK.wait hc.invoke) arguments
    · split
      · exact hK.construct hcommands _ _ _
      · exact hK.miss _

omit hcommands in
private theorem callValue (callee : Value) (arguments : Arguments) :
    K (Session.callValue c callee arguments) := by
  unfold Session.callValue
  split
  · exact hc.call _ arguments
  · exact hK.miss _

/-! ## Expressions -/

set_option linter.unusedSectionVars false in
mutual

/-- What holds of the steps of evaluation holds of evaluating an expression. -/
theorem eval : (e : Expr) → K (Session.eval commands c e)
  | .number _ _ | .bool _ _ | .text _ _ => by simp only [Session.eval]; exact hK.pure _
  | .array _ items => by
    simp only [Session.eval]
    exact hK.bind (evalAll items) fun _ => hK.pure _
  | .name position name => by
    simp only [Session.eval]
    exact hK.variableValue position name
  | .binary _ op lhs rhs => by
    simp only [Session.eval]
    exact hK.bind (eval lhs) fun _ => hK.bind (eval rhs) fun _ => hK.pure _
  | .unary _ op operand => by
    simp only [Session.eval]
    exact hK.bind (eval operand) fun _ => hK.pure _
  | .member _ target name => by
    simp only [Session.eval]
    refine hK.bind (eval target) fun value => ?_
    split
    · exact hK.member _ _
    · exact hK.pure _
  | .call _ callee arguments => by
    have hcallee := eval callee
    have harguments := evalArguments arguments
    cases callee with
    | member _ target name =>
      simp only [Session.eval]
      refine hK.bind (eval target) fun value => hK.bind harguments fun _ => ?_
      exact hK.callMember hcommands _ _ _
    | name _ name =>
      simp only [Session.eval]
      exact hK.bind harguments fun _ => hK.callNamed hcommands hc _ _
    | _ =>
      simp only [Session.eval] at hcallee ⊢
      exact hK.bind hcallee fun value => hK.bind harguments fun _ => hK.callValue hc value _
  | .construct _ typeName arguments properties => by
    simp only [Session.eval]
    refine hK.bind (evalArguments arguments) fun _ => ?_
    refine hK.bind (evalProperties properties) fun _ => ?_
    exact hK.construct hcommands _ _ _
  | .interpolated _ parts => by
    simp only [Session.eval]
    exact hK.bind (evalParts parts) fun _ => hK.pure _

private theorem evalAll : (items : List Expr) → K (Session.evalAll commands c items)
  | [] => by simp only [Session.evalAll]; exact hK.pure _
  | first :: rest => by
    simp only [Session.evalAll]
    exact hK.bind (eval first) fun _ => hK.bind (evalAll rest) fun _ => hK.pure _

private theorem evalArguments : (arguments : List Argument) →
    K (Session.evalArguments commands c arguments)
  | [] => by simp only [Session.evalArguments]; exact hK.pure _
  | .positional value :: rest | .named _ value :: rest => by
    simp only [Session.evalArguments]
    exact hK.bind (eval value) fun _ => hK.bind (evalArguments rest) fun _ => hK.pure _

private theorem evalProperties : (properties : List PropertyInit) →
    K (Session.evalProperties commands c properties)
  | [] => by simp only [Session.evalProperties]; exact hK.pure _
  | .mk name value :: rest => by
    simp only [Session.evalProperties]
    exact hK.bind (eval value) fun _ => hK.bind (evalProperties rest) fun _ => hK.pure _

private theorem evalParts : (parts : List Part) → K (Session.evalParts commands c parts)
  | [] => by simp only [Session.evalParts]; exact hK.pure _
  | .text run :: rest => by
    simp only [Session.evalParts]
    exact hK.bind (evalParts rest) fun _ => hK.pure _
  | .expr value :: rest => by
    simp only [Session.evalParts]
    exact hK.bind (eval value) fun _ => hK.bind (evalParts rest) fun _ => hK.pure _

end

/-! ## Statements -/

private theorem assign (target : Expr) (value : Value) :
    K (Session.assign commands c target value) := by
  unfold Session.assign
  split
  · exact hK.changeSession _ (keepsOutput_of_eq fun _ => rfl)
  · refine hK.bind (hK.eval hcommands hc _) fun owner => ?_
    split
    · exact hK.changeSession _ (keepsOutput_of_eq fun _ => output_setProperty _ _ _ _)
    · exact hK.logOne _ _
  · exact hK.logOne _ _

omit hcommands hc in
private theorem iterate {body : Play Flow} (hbody : K body) (count : Nat) :
    K (Session.iterate body count) := by
  induction count with
  | zero => exact hK.pure _
  | succ count ih =>
    refine hK.bind hbody fun flow => ?_
    cases flow with
    | leave value => exact hK.pure _
    | normal => exact ih

set_option linter.unusedSectionVars false in
mutual

/-- What holds of the steps of evaluation holds of running a statement. -/
theorem exec : (stmt : Stmt) → K (Session.exec commands c stmt)
  | .assign _ target value => by
    simp only [Session.exec]
    refine hK.bind (hc.watch _) fun _ => hK.bind (hK.eval hcommands hc value) fun _ => ?_
    exact hK.bind (hK.assign hcommands hc target _) fun _ => hK.pure _
  | .expr _ value => by
    simp only [Session.exec]
    refine hK.bind (hc.watch _) fun _ => hK.bind (hK.eval hcommands hc value) fun _ => ?_
    exact hK.pure _
  | .wait _ seconds => by
    simp only [Session.exec]
    refine hK.bind (hc.watch _) fun _ => hK.bind (hK.eval hcommands hc seconds) fun _ => ?_
    exact hK.bind (hK.wait hc.invoke _) fun _ => hK.pure _
  | .loop _ count body => by
    simp only [Session.exec]
    refine hK.bind (hc.watch _) fun _ => hK.bind (hK.eval hcommands hc count) fun _ => ?_
    exact hK.iterate (execAll body) _
  | .define _ name _ _ => by
    simp only [Session.exec]
    refine hK.bind (hc.watch _) fun _ => ?_
    exact hK.bind (hK.changeSession _ (keepsOutput_of_eq fun _ => rfl)) fun _ => hK.pure _
  | .leave _ none => by
    simp only [Session.exec]
    exact hK.bind (hc.watch _) fun _ => hK.pure _
  | .leave _ (some value) => by
    simp only [Session.exec]
    refine hK.bind (hc.watch _) fun _ => hK.bind (hK.eval hcommands hc value) fun _ => ?_
    exact hK.pure _

theorem execAll : (body : List Stmt) → K (Session.execAll commands c body)
  | [] => by simp only [Session.execAll]; exact hK.pure _
  | first :: rest => by
    simp only [Session.execAll]
    refine hK.bind (exec first) fun flow => ?_
    cases flow with
    | leave value => exact hK.pure _
    | normal => exact execAll rest

end

theorem runAll (statements : List Stmt) : K (Session.runAll commands c statements) := by
  induction statements with
  | nil => exact hK.pure _
  | cons first rest ih =>
    refine hK.bind (hK.exec hcommands hc first) fun flow => ?_
    cases flow with
    | leave value => exact hK.logOne _ _
    | normal => exact ih

/-! ## Calls -/

omit hcommands hc in
private theorem refuse (function : Function) : K (Session.refuse function) :=
  hK.bind (hK.logOne _ _) fun _ => hK.pure _

theorem callFunction (function : Function) (arguments : Arguments) :
    K (Session.callFunction commands c function arguments) := by
  refine hK.bind hK.session fun session => ?_
  split
  · exact hK.refuse function
  · refine hK.bind (hK.changeSession _ (keepsOutput_of_eq fun _ => rfl)) fun _ => ?_
    refine hK.bind (hK.execAll hcommands hc function.body) fun flow => ?_
    refine hK.bind (hK.changeSession _ (keepsOutput_of_eq fun _ => rfl)) fun _ => ?_
    split <;> exact hK.pure _

theorem invokeFunction (call : Invocation) : K (Session.invokeFunction commands c call) := by
  refine hK.bind hK.session fun session => ?_
  split
  · exact hK.pure _
  · exact hK.bind (hK.callFunction hcommands hc _ _) fun _ => hK.pure _

omit hc in
/-- What holds of the steps of evaluation holds of all calls. -/
theorem watchedCallees {watch : Stmt → Play Unit} (hwatch : ∀ stmt, K (watch stmt))
    (levels : Nat) : (Session.watchedCallees commands watch levels).Obey K := by
  induction levels with
  | zero => exact ⟨fun function _ => hK.refuse function, fun _ => hK.pure _, hwatch⟩
  | succ levels ih => exact ⟨hK.callFunction hcommands ih, hK.invokeFunction hcommands ih, hwatch⟩

omit hc in
theorem outermost : (Session.outermost commands).Obey K :=
  hK.watchedCallees hcommands (fun _ => hK.pure ()) depthLimit

omit hc in
/-- What holds of the steps of evaluation holds of running a script. -/
theorem run (statements : List Stmt) : K (Session.run commands statements) :=
  hK.runAll hcommands (hK.outermost hcommands) statements

end

end Play.Rules

end Animatic
