import Animatic.Command.Standard
import Animatic.Script.Basic
import Animatic.Value.Operators

/-!
# Evaluation

Running statements and evaluating expressions. Evaluation never fails: a name without a binding is
null, a call without a handler is null and counted, and what goes wrong with a primitive is logged.

Calls of script functions nest at most `depthLimit` levels, which the session counts. `callees levels`
are the calls that can be made when at most `levels` more levels are left; the body of a function runs
with the callees of one level less, so evaluation ends by recursion on the level, and within a level
by recursion on the syntax.
-/

namespace Animatic

open Script Play Playback

/-- How a statement ended. -/
inductive Flow where
  | normal
  | leave (value : Value)

/-- The calls of script functions that can be made at some depth. -/
structure Callees where
  call : Function → Arguments → Play Value
  invoke : Invoker Session
  /-- What is done in front of every statement, for whoever looks on. -/
  watch : Stmt → Play Unit

namespace Session

/-- The number of calls of script functions that may be nested. -/
def depthLimit : Nat := 64

/-! ## Parameters -/

/-- A list without the item at an index, whose place the last item takes. -/
def swapRemove {α : Type} (items : List α) (index : Nat) : List α :=
  match items.getLast? with
  | none => []
  | some last => (items.set index last).dropLast

/-- The value of the first named argument of a name, and the other ones. -/
def takeNamed (name : String) (named : List (String × Value)) :
    Value × List (String × Value) :=
  match named.findIdx? (·.1 == name) with
  | none => (.null, named)
  | some index => (((named[index]?).map (·.2)).getD .null, swapRemove named index)

/-- The values of parameters: positional arguments first, then named ones; what is left over is
null. -/
def bindParameters : List String → List Value → List (String × Value) → List (String × Value)
  | [], _, _ => []
  | name :: names, value :: positional, named =>
    (name, value) :: bindParameters names positional named
  | name :: names, [], named =>
    let (value, named) := takeNamed name named
    (name, value) :: bindParameters names [] named

/-! ## Waiting and constructing -/

/-- Lets time pass: the offset of a recording scene, and the clock of a playing one, which fires
what becomes due. -/
def elapse (invoke : Invoker Session) (seconds : Float) : Play (Except SceneError Unit) := do
  match (← scene).phase with
  | .recording =>
    match (← scene).scheduleDelay seconds with
    | .ok next => do
      changeScene fun _ => next
      return .ok ()
    | .error e => return .error e
  | .playing => advanceClock invoke seconds

/-- Lets time pass; if it cannot, that is logged. -/
def wait (invoke : Invoker Session) (seconds : Float) : Play Unit := do
  match ← elapse invoke seconds with
  | .ok () => return ()
  | .error e => logOne .warn ("wait(" ++ Number.plainText seconds ++ "): " ++ e.message)

/-- The properties of a new object: those given in braces, then named arguments, then positional
ones under the names of the parameters they stand for, unless such a property is there. -/
def constructionProperties (constructor : Option Construct.Constructor) (arguments : Arguments)
    (properties : PropertyMap) : PropertyMap :=
  let given := properties.insertAll arguments.named
  let parameters := (constructor.map (·.parameters)).getD []
  (parameters.zip arguments.positional).foldl
    (fun map (parameter, value) =>
      if value.isNull || map.containsIgnoringCase parameter.name then map
      else map.insert parameter.name value)
    given

/-- Takes the primitive of a new object into the scene; if there is none, that is logged. -/
def buildHost (typeName : String) (positional : List Value) (properties : PropertyMap) :
    Play (Option PrimitiveId) := do
  let (result, entries) :=
    Construct.build (← session).settings typeName positional properties
  log entries
  match result with
  | .ok p =>
    let (id, next) := (← scene).insert p
    changeScene fun _ => next
    return some id
  | .error (.unknownType _) =>
    logOne .debug ("`" ++ typeName ++ "` has no host type; keeping a plain object")
    return none
  | .error e =>
    logOne .warn ("cannot construct " ++ typeName ++ ": " ++ e.message)
    return none

/-- Does what is to be done with a new object of a type. -/
def runHook (commands : Commands) (typeName : String) (object : ObjectRef) : Play Unit :=
  match commands.hook? typeName with
  | some hook => hook object
  | none => return ()

/-- Constructs an object, with a primitive if its type has one. -/
def construct (commands : Commands) (typeName : String) (arguments : Arguments)
    (properties : PropertyMap) : Play Value := do
  let constructor := Construct.find? typeName
  let typeName := (constructor.map (·.typeName)).getD typeName
  let properties := constructionProperties constructor arguments properties
  let number := (← session).objects.size + 1
  let host ← buildHost typeName arguments.positional properties
  let object : ObjectRef := { origin := .session, number, typeName, host }
  changeSession fun session => { session with objects := session.objects.push ⟨object, properties⟩ }
  runHook commands typeName object
  return .object object

/-! ## Expressions -/

/-- The value of a member of an object: a property, or the present value of a channel of its
primitive. -/
def member (object : ObjectRef) (name : String) : Play Value := do
  match ((← session).propertiesOf object).get? name with
  | some value => return value
  | none =>
    let scene ← scene
    match object.host.bind scene.get?, Channel.ofName? name with
    | some p, some channel => return .number (p.get channel)
    | _, _ => return .null

/-- Calls a method of an object. -/
def callMethod (commands : Commands) (object : ObjectRef) (method : String)
    (arguments : Arguments) : Play Value :=
  match commands.resolve? object.typeName method with
  | some handler => handler object arguments
  | none => miss (object.typeName ++ "." ++ method)

/-- Calls what a name stands for: a script function, a global command, or a constructor. -/
def callNamed (commands : Commands) (callees : Callees) (name : String) (arguments : Arguments) :
    Play Value := do
  match (← session).scopes.get? name with
  | some (.function f) => callees.call f arguments
  | _ =>
    match commands.global? name with
    | some handler => handler (wait callees.invoke) arguments
    | none =>
      if (Construct.find? name).isSome then construct commands name arguments .empty
      else miss (name ++ "()")

/-- Calls a method of a value. -/
def callMember (commands : Commands) (target : Value) (name : String) (arguments : Arguments) :
    Play Value :=
  match target with
  | .object object => callMethod commands object name arguments
  | other => miss (other.typeName ++ "." ++ name)

/-- Calls a value. -/
def callValue (callees : Callees) (callee : Value) (arguments : Arguments) : Play Value :=
  match callee with
  | .function f => callees.call f arguments
  | other => miss ("call of " ++ other.typeName)

/-- The place of a message. -/
def place (position : Position) : String :=
  "[" ++ toString position.line ++ ":" ++ toString position.column ++ "]"

/-- The value of a name. -/
def variableValue (position : Position) (name : String) : Play Value := do
  match (← session).scopes.get? name with
  | some value => return value
  | none =>
    logOne .debug (place position ++ " unbound name `" ++ name ++ "`")
    return .null

section

variable (commands : Commands) (callees : Callees)

mutual

/-- The value of an expression. -/
def eval : Expr → Play Value
  | .number _ n => return .number n
  | .bool _ b => return .bool b
  | .text _ s => return .text s
  | .array _ items => return .array (← evalAll items)
  | .name position name => variableValue position name
  | .binary _ op lhs rhs => do
    let lhs ← eval lhs
    let rhs ← eval rhs
    return .binary op lhs rhs
  | .unary _ op operand => return .unary op (← eval operand)
  | .member _ target name => do
    match ← eval target with
    | .object object => member object name
    | _ => return .null
  | .call _ (.member _ target name) arguments => do
    let target ← eval target
    let arguments ← evalArguments arguments
    callMember commands target name arguments
  | .call _ (.name _ name) arguments => do
    let arguments ← evalArguments arguments
    callNamed commands callees name arguments
  | .call _ callee arguments => do
    let callee ← eval callee
    let arguments ← evalArguments arguments
    callValue callees callee arguments
  | .construct _ typeName arguments properties => do
    let arguments ← evalArguments arguments
    let properties ← evalProperties properties
    construct commands typeName arguments (.ofList properties)
  | .interpolated _ parts => return .text (← evalParts parts)

/-- The values of some expressions, from left to right. -/
def evalAll : List Expr → Play (List Value)
  | [] => return []
  | first :: rest => do
    let value ← eval first
    let values ← evalAll rest
    return value :: values

/-- The arguments of a call, from left to right. -/
def evalArguments : List Argument → Play Arguments
  | [] => return .empty
  | .positional value :: rest => do
    let value ← eval value
    let arguments ← evalArguments rest
    return { arguments with positional := value :: arguments.positional }
  | .named name value :: rest => do
    let value ← eval value
    let arguments ← evalArguments rest
    return { arguments with named := (name, value) :: arguments.named }

/-- The properties in a constructor's braces, from left to right. -/
def evalProperties : List PropertyInit → Play (List (String × Value))
  | [] => return []
  | .mk name value :: rest => do
    let value ← eval value
    let properties ← evalProperties rest
    return (name, value) :: properties

/-- The text that some parts make together. -/
def evalParts : List Part → Play String
  | [] => return ""
  | .text run :: rest => do
    let following ← evalParts rest
    return run ++ following
  | .expr value :: rest => do
    let value ← eval value
    let following ← evalParts rest
    return value.display ++ following

end

/-! ## Statements -/

/-- Gives a target a value: a name in the innermost frame, or a property of an object. -/
def assign (target : Expr) (value : Value) : Play Unit := do
  match target with
  | .name _ name =>
    changeSession fun session => { session with scopes := session.scopes.assign name value }
  | .member _ owner name =>
    match ← eval commands callees owner with
    | .object object => changeSession (·.setProperty object name value)
    | other =>
      logOne .debug (Session.place owner.position ++ " cannot set `" ++ name ++ "` on "
        ++ other.typeName)
  | other => logOne .debug (Session.place other.position ++ " invalid assignment target")

/-- Runs a body a number of times, unless it leaves. -/
def iterate (body : Play Flow) : Nat → Play Flow
  | 0 => return .normal
  | count + 1 => do
    match ← body with
    | .leave value => return .leave value
    | .normal => iterate body count

mutual

/-- Runs a statement. -/
def exec : Stmt → Play Flow
  | .assign position target value => do
    callees.watch (.assign position target value)
    let value ← eval commands callees value
    assign commands callees target value
    return .normal
  | .expr position value => do
    callees.watch (.expr position value)
    let _ ← eval commands callees value
    return .normal
  | .wait position seconds => do
    callees.watch (.wait position seconds)
    let seconds ← eval commands callees seconds
    wait callees.invoke seconds.toNumber
    return .normal
  | .loop position count body => do
    callees.watch (.loop position count body)
    let count ← eval commands callees count
    iterate (execAll body)
      (Number.truncWithin Number.longLimit (Number.exact count.toNumber))
  | .define position name parameters body => do
    callees.watch (.define position name parameters body)
    let function : Function := ⟨name, parameters, body, position⟩
    changeSession fun session =>
      { session with scopes := session.scopes.assign name (.function function) }
    return .normal
  | .leave position none => do
    callees.watch (.leave position none)
    return .leave .null
  | .leave position (some value) => do
    callees.watch (.leave position (some value))
    return .leave (← eval commands callees value)

/-- Runs statements in order, unless one leaves. -/
def execAll : List Stmt → Play Flow
  | [] => return .normal
  | first :: rest => do
    match ← exec first with
    | .leave value => return .leave value
    | .normal => execAll rest

end

/-- Runs the statements of a script; one that leaves ends it. -/
def runAll : List Stmt → Play Unit
  | [] => return ()
  | first :: rest => do
    match ← exec commands callees first with
    | .leave _ => logOne .debug ("script returned at line " ++ toString first.position.line)
    | .normal => runAll rest

end

/-! ## Calls -/

/-- Binds the parameters of a function in a new frame and counts the call. -/
def enter (function : Function) (arguments : Arguments) (session : Session) : Session :=
  let bindings := bindParameters function.parameters arguments.positional arguments.named
  { session with
    scopes := bindings.foldl (fun scopes (name, value) => scopes.assign name value)
      session.scopes.push
    depth := session.depth + 1 }

/-- Closes the frame of a call. -/
def depart (session : Session) : Session :=
  { session with scopes := session.scopes.pop, depth := session.depth - 1 }

/-- A call for which no level is left is null. -/
def refuse (function : Function) : Play Value := do
  logOne .warn (function.name ++ "(): call depth limit of " ++ toString depthLimit ++ " reached")
  return .null

/-- Calls a function: its body runs in a frame of its own, which holds the parameters. -/
def callFunction (commands : Commands) (callees : Callees) (function : Function)
    (arguments : Arguments) : Play Value := do
  if depthLimit ≤ (← session).depth then refuse function
  else
    changeSession (enter function arguments)
    let flow ← execAll commands callees function.body
    changeSession depart
    match flow with
    | .leave value => return value
    | .normal => return .null

/-- Calls the function of a scheduled invocation. A call for which no level is left is an error. -/
def invokeFunction (commands : Commands) (callees : Callees) : Invoker Session := fun call => do
  if depthLimit ≤ (← session).depth then return .error (.tooDeep call.function.name)
  else
    let _ ← callFunction commands callees call.function (.ofList call.arguments)
    return .ok ()

/-- The calls that can be made when `levels` more levels are left, with something done in front of
every statement. -/
def watchedCallees (commands : Commands) (watch : Stmt → Play Unit) : Nat → Callees
  | 0 =>
    { call := fun function _ => refuse function
      invoke := fun call => return .error (.tooDeep call.function.name)
      watch }
  | levels + 1 =>
    let inner := watchedCallees commands watch levels
    { call := callFunction commands inner
      invoke := invokeFunction commands inner
      watch }

/-- The calls that can be made when `levels` more levels are left. -/
def callees (commands : Commands) : Nat → Callees :=
  watchedCallees commands fun _ => return ()

/-- The calls that can be made from outside every function. -/
def outermost (commands : Commands) : Callees := callees commands depthLimit

/-- Runs the statements of a script. -/
def run (commands : Commands) (statements : List Stmt) : Play Unit :=
  runAll commands (outermost commands) statements

/-- Advances one frame, with the session running the functions that are due. -/
def update (commands : Commands) (dt : Float) : Play Unit :=
  Playback.update (outermost commands).invoke dt

end Session

end Animatic
