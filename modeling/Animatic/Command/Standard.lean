import Animatic.Construct.Basic
import Animatic.Session.Basic

/-!
# Standard commands

The global commands, the operations on primitives and what is done with a new primitive. Operations
never touch the scene at once: each schedules an effect `start:` seconds after the scene's time, so
that one call records while a script sets up a scene and acts on the next frame while it is played.
-/

namespace Animatic.Standard

open Play Playback

/-! ## Timing -/

/-- Delay, duration and easing of an animated operation. -/
structure Timing where
  delay : Float
  duration : Float
  easing : Easing

/-- The delay that an operation is given by `start`. -/
def startDelay (arguments : Arguments) : Float :=
  ((arguments.named? "start").map Value.toNumber).getD 0

/-- The easing that an operation is given by name, or the one from the settings. -/
def easingOf (settings : Settings) (arguments : Arguments) : Play Easing := do
  match arguments.named? "easing" with
  | some (.text name) =>
    match Easing.ofName? name with
    | some easing => return easing
    | none =>
      logOne .warn ("unknown easing `" ++ name ++ "`, using " ++ settings.defaultEasing.title)
      return settings.defaultEasing
  | _ => return settings.defaultEasing

/-- The timing of an operation whose duration may stand at the position `durationAt`. -/
def timing (arguments : Arguments) (durationAt : Nat) : Play Timing := do
  let settings := (← session).settings
  let given := (arguments.named? "duration").or (arguments.at? durationAt)
  let easing ← easingOf settings arguments
  return ⟨startDelay arguments, (given.map Value.toNumber).getD settings.defaultDuration, easing⟩

/-! ## Scheduling -/

/-- The primitive of an object; if it has none, that is logged. -/
def hostOf (object : ObjectRef) (operation : String) : Play (Option PrimitiveId) := do
  if object.host.isNone then
    logOne .warn (operation ++ ": " ++ object.text ++ " has no primitive")
  return object.host

/-- Schedules a change. -/
def schedule (delay : Float) (change : Change) : Play Unit :=
  changeScene (·.schedule delay (.change change))

/-- Schedules several changes for one time. -/
def scheduleAll (delay : Float) (changes : List Change) : Play Unit :=
  changeScene (·.scheduleAll delay (changes.map .change))

/-- The value of an operation on the primitive of an object: null when it has none. -/
def onPrimitive (object : ObjectRef) (operation : String) (act : PrimitiveId → Play Value) :
    Play Value := do
  match ← hostOf object operation with
  | none => return .null
  | some id => act id

/-- Schedules a tween of the primitive of an object and gives the object back, so that calls
chain. -/
def tweening (operation : String) (targets : Arguments → List (Channel × Float)) : Method :=
  fun object arguments => onPrimitive object operation fun id => do
    let timing ← timing arguments 0
    schedule timing.delay (.tween id (targets arguments) timing.duration timing.easing)
    return .object object

/-- Schedules a change of the primitive of an object and gives the object back. -/
def changing (operation : String) (change : PrimitiveId → Arguments → Change) : Method :=
  fun object arguments => onPrimitive object operation fun id => do
    schedule (startDelay arguments) (change id arguments)
    return .object object

/-! ## Targets -/

/-- Channels with the values that are given for them. -/
def givenTargets (targets : List (Channel × Option Float)) : List (Channel × Float) :=
  targets.filterMap fun (channel, value) => value.map ((channel, ·))

/-- The colour channels with the numbers of an array. -/
def colorTargets (value : Value) : List (Channel × Float) := Channel.colors.zip value.numbers

/-- `move(duration, x, y)` or `move(to: [x, y])`. -/
def moveTargets (arguments : Arguments) : List (Channel × Float) :=
  match (arguments.named? "to").map Value.numbers with
  | some goal => givenTargets [(.x, goal[0]?), (.y, goal[1]?)]
  | none => givenTargets [(.x, arguments.number? 1 "x"), (.y, arguments.number? 2 "y")]

/-- `scale(duration, factor)`; the factor may be `[sx, sy]`. -/
def scaleTargets (arguments : Arguments) : List (Channel × Float) :=
  match arguments.get? 1 "to" with
  | some (.array items) => [Channel.scaleX, .scaleY].zip (Value.array items).numbers
  | some value => [(.scaleX, value.toNumber), (.scaleY, value.toNumber)]
  | none => []

/-- `rotate(duration, degrees)`. -/
def rotateTargets (arguments : Arguments) : List (Channel × Float) :=
  givenTargets [(.rotation, arguments.number? 1 "to")]

/-- `color(duration, [r, g, b, a])`. -/
def tweenColorTargets (arguments : Arguments) : List (Channel × Float) :=
  ((arguments.get? 1 "to").map colorTargets).getD []

/-- `fade(duration, alpha)`. -/
def fadeTargets (arguments : Arguments) : List (Channel × Float) :=
  givenTargets [(.alpha, arguments.number? 1 "to")]

/-- `setColor([r, g, b, a])` or `setColor(r, g, b, a)`. -/
def setColorTargets (arguments : Arguments) : List (Channel × Float) :=
  match arguments.get? 0 "to" with
  | some (.array items) => colorTargets (.array items)
  | _ => Channel.colors.zip (arguments.positional.map Value.toNumber)

/-- `setPosition(x, y)`. -/
def setPositionTargets (arguments : Arguments) : List (Channel × Float) :=
  givenTargets [(.x, arguments.number? 0 "x"), (.y, arguments.number? 1 "y")]

/-! ## Operations -/

/-- `draw(duration)`: hides the outline, then reveals it. -/
def draw : Method := fun object arguments => onPrimitive object "draw" fun id => do
  let timing ← timing arguments 0
  scheduleAll timing.delay
    [.set id [(.reveal, 0)], .tween id [(.reveal, 1)] timing.duration timing.easing]
  return .object object

/-- Tweens a primitive into the outline of another one. If that one replaces it in the end, it is
also the value of the call. -/
def morphing (operation : String) (replace : Bool) : Method :=
  fun object arguments => onPrimitive object operation fun source => do
    match (arguments.get? 0 "target").bind Value.object? with
    | none =>
      logOne .warn (operation ++ ": expected a target object")
      return .null
    | some goal => onPrimitive goal operation fun target => do
      let timing ← timing arguments 1
      schedule timing.delay (.shapeTween source target timing.duration timing.easing replace)
      return .object (if replace then goal else object)

/-- `velocity(vx, vy)`. -/
def velocityChange (id : PrimitiveId) (arguments : Arguments) : Change :=
  .setVelocity id (Number.narrow ((arguments.number? 0 "x").getD 0))
    (Number.narrow ((arguments.number? 1 "y").getD 0))

/-- `remove()`. -/
def remove : Method := fun object arguments => onPrimitive object "remove" fun id => do
  schedule (startDelay arguments) (.remove id)
  return .null

/-- What an operation does to a primitive of any kind. -/
def method : Operation → Method
  | .move => tweening "move" moveTargets
  | .scale => tweening "scale" scaleTargets
  | .rotate => tweening "rotate" rotateTargets
  | .color => tweening "color" tweenColorTargets
  | .fade => tweening "fade" fadeTargets
  | .draw => draw
  | .morph => morphing "morph" true
  | .morphTo => morphing "morphTo" false
  | .setColor => changing "setColor" fun id arguments => .set id (setColorTargets arguments)
  | .setPosition =>
    changing "setPosition" fun id arguments => .set id (setPositionTargets arguments)
  | .velocity => changing "velocity" velocityChange
  | .remove => remove

/-! ## Globals -/

mutual

/-- The primitives that a value refers to, also inside arrays; what refers to none is logged. -/
def hostsOf (operation : String) : Value → Play (List PrimitiveId)
  | .object object => return (← hostOf object operation).toList
  | .array items => hostsOfAll operation items
  | other => do
    logOne .warn (operation ++ ": cannot use " ++ other.typeName ++ " as a primitive")
    return []

/-- The primitives that some values refer to. -/
def hostsOfAll (operation : String) : List Value → Play (List PrimitiveId)
  | [] => return []
  | value :: rest => do
    let first ← hostsOf operation value
    let others ← hostsOfAll operation rest
    return first ++ others

end

/-- `Add(object)`, `Add([a, b])` or `Add { a, b }`: shows primitives and gives the argument back. -/
def add : Global := fun _ arguments => do
  let ids ← hostsOfAll "Add" arguments.positional
  scheduleAll (startDelay arguments) (ids.map .show)
  match arguments.positional with
  | [single] => return single
  | many => return .array many

/-- `Remove(object, …)`: removes primitives. -/
def removeAll : Global := fun _ arguments => do
  let ids ← hostsOfAll "Remove" arguments.positional
  scheduleAll (startDelay arguments) (ids.map .remove)
  return .null

/-- `Wait(seconds)`. -/
def wait : Global := fun wait arguments => do
  wait ((arguments.number? 0 "seconds").getD 0)
  return .null

/-- The function that a value is or names; anything else is logged. -/
def scheduledFunction (value : Option Value) : Play (Option Script.Function) := do
  match value with
  | some (.function f) => return some f
  | some (.text name) =>
    match (← session).scopes.get? name with
    | some (.function f) => return some f
    | _ =>
      logOne .warn ("Schedule: no function named `" ++ name ++ "`")
      return none
  | other =>
    logOne .warn ("Schedule: expected a function, got "
      ++ (other.map Value.typeName).getD "nothing")
    return none

/-- `Schedule(delay, function, arguments…)`. -/
def scheduleCall : Global := fun _ arguments => do
  let delay := (arguments.number? 0 "delay").getD 0
  match ← scheduledFunction (arguments.get? 1 "func") with
  | none => return .null
  | some function =>
    changeScene (·.schedule delay (.invoke ⟨function, arguments.positional.drop 2⟩))
    return .null

/-- `Print(…)`: a line of texts between blanks. -/
def printLine : Global := fun _ arguments => do
  print (" ".intercalate (arguments.positional.map Value.display))
  return .null

/-- `Random()` or `Random(min, max)`: a number from `min` up to `max`. Without room between the two
the value is `min`. -/
def random : Global := fun _ arguments => do
  let low := (arguments.number? 0 "min").getD 0
  let high := (arguments.number? 1 "max").getD 1
  if !low.isFinite then return .number 0
  if !high.isFinite || high ≤ low || !(high - low).isFinite then return .number low
  let (drawn, source) :=
    (← session).random.between low high Random.attemptLimit
  changeSession fun session => { session with random := source }
  return .number drawn

/-- `Len(value)`: the number of items or characters. -/
def length : Global := fun _ arguments =>
  return .number <| Float.ofNat <|
    match arguments.at? 0 with
    | some (.array items) => items.length
    | some (.text s) => s.length
    | _ => 0

/-- `Rgb(r, g, b, a)`: a colour. Components are on a scale up to 255 as soon as one of them is above
one. -/
def rgb : Global := fun _ arguments =>
  let component (index : Nat) : Float := ((arguments.at? index).map Value.toNumber).getD 0
  let components := [component 0, component 1, component 2]
  let scaled := if components.any (1 < ·) then components.map (· / 255) else components
  let alpha := ((arguments.at? 3).map Value.toNumber).getD 1
  return .array ((scaled ++ [alpha]).map .number)

/-- `Time()`: the scene's time. -/
def time : Global := fun _ _ => return .number (← scene).now

/-- The global commands by name. -/
def globals : List (String × Global) :=
  [("Add", add), ("Remove", removeAll), ("Wait", wait), ("Schedule", scheduleCall),
    ("Print", printLine), ("Log", printLine), ("Random", random), ("Len", length), ("Rgb", rgb),
    ("Time", time)]

/-! ## New primitives -/

/-- A primitive with the placement that properties give. -/
def place (properties : PropertyMap) (t : Transform) : Transform :=
  let number (name : String) (otherwise : Float32) : Float32 :=
    match properties.getIgnoringCase? name with
    | some value => Number.narrow value.toNumber
    | none => otherwise
  let (scaleX, scaleY) :=
    match properties.getIgnoringCase? "scale" with
    | some (.array items) =>
      match (Value.array items).numbers with
      | x :: y :: _ => (Number.narrow x, Number.narrow y)
      | _ => (t.scaleX, t.scaleY)
    | some value => (Number.narrow value.toNumber, Number.narrow value.toNumber)
    | none => (t.scaleX, t.scaleY)
  ⟨number "x" t.x, number "y" t.y, scaleX, scaleY, number "rotation" t.rotation⟩

/-- A colour with the components that the property gives. -/
def paint (properties : PropertyMap) (color : Color) : Color :=
  let given := (((properties.getIgnoringCase? "color").map Value.numbers).getD []).map Number.narrow
  ⟨given.getD 0 color.red, given.getD 1 color.green, given.getD 2 color.blue,
    given.getD 3 color.alpha⟩

/-- Applies the properties `x`, `y`, `rotation`, `scale`, `color` and `velocity`. -/
def applyProperties (properties : PropertyMap) (p : Primitive) : Primitive :=
  let (velocityX, velocityY) :=
    match (properties.getIgnoringCase? "velocity").map Value.numbers with
    | some (x :: y :: _) => (Number.narrow x, Number.narrow y)
    | _ => (p.velocityX, p.velocityY)
  { p with
    transform := place properties p.transform
    color := paint properties p.color
    velocityX
    velocityY }

/-- Applies the common properties of a new object to its primitive. -/
def commonProperties : Hook := fun object => do
  match object.host with
  | none => return ()
  | some id =>
    let properties := (← session).propertiesOf object
    changeScene fun scene =>
      match scene.get? id with
      | some p => scene.put id (applyProperties properties p)
      | none => scene

/-- The commands that every session starts with. -/
def commands : Commands :=
  let withGlobals := globals.foldl
    (fun registry (name, handler) => registry.registerGlobal name handler) .empty
  let withMethods := Operation.names.foldl
    (fun registry (_, operation) => registry.registerMethod .any operation (method operation))
    withGlobals
  PrimitiveKind.all.foldl
    (fun registry kind => registry.registerHook kind.name commonProperties) withMethods

end Animatic.Standard
