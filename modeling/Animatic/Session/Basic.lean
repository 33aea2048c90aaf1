import Animatic.Command.Registry
import Animatic.Random.Uniform
import Animatic.Scene.Playback
import Animatic.Settings.Basic
import Animatic.Value.Arguments
import Animatic.Value.Scopes

/-!
# Sessions

A session is the state in which a script runs: bindings, objects with their properties, the random
source, and what the script has printed. Together with a scene it makes a world; `Play` is a
computation on both.
-/

namespace Animatic

/-- An object that a script constructed. -/
structure ScriptObject where
  ref : ObjectRef
  properties : PropertyMap

/-- The state of a running script. -/
structure Session where
  scopes : Scopes
  /-- The number of calls of script functions that are running. -/
  depth : Nat
  /-- The constructed objects, oldest first. -/
  objects : Array ScriptObject
  /-- The properties given to objects from outside. -/
  visitors : List (ObjectRef × PropertyMap)
  settings : Settings
  random : Random.Source
  /-- The number of calls for which there was no handler. -/
  misses : Nat
  /-- The printed lines. -/
  output : Array String

namespace Session

/-- A session in which nothing has happened. -/
def ofSettings (settings : Settings) : Session :=
  { scopes := .empty, depth := 0, objects := #[], visitors := [], settings
    random := .ofSeed settings.seed, misses := 0, output := #[] }

/-- The properties of an object. -/
def propertiesOf (session : Session) (object : ObjectRef) : PropertyMap :=
  match object.origin with
  | .session => ((session.objects[object.number - 1]?).map (·.properties)).getD .empty
  | .outside _ => ((session.visitors.find? (·.1.same object)).map (·.2)).getD .empty

/-- Gives a property of an object a value. -/
def setProperty (session : Session) (object : ObjectRef) (name : String) (value : Value) :
    Session :=
  match object.origin with
  | .session =>
    { session with
      objects := session.objects.modify (object.number - 1) fun entry =>
        { entry with properties := entry.properties.insert name value } }
  | .outside _ =>
    let properties := (session.propertiesOf object).insert name value
    { session with
      visitors := (object, properties) :: session.visitors.filter (!·.1.same object) }

/-- The object with a number. -/
def object? (session : Session) (number : Nat) : Option ObjectRef :=
  (session.objects.find? (·.ref.number == number)).map (·.ref)

end Session

/-- A computation on a session and its scene. -/
abbrev Play := Action Session

/-- What a method of a primitive does. -/
abbrev Method := ObjectRef → Arguments → Play Value

/-- What a global command does. It is given the way to wait, since a script may be running while
time passes. -/
abbrev Global := (Float → Play Unit) → Arguments → Play Value

/-- What is done with a new object. -/
abbrev Hook := ObjectRef → Play Unit

/-- The commands that a script can use. -/
abbrev Commands := Registry Method Global Hook

namespace Play

/-- The session. -/
def session : Play Session := Playback.host

/-- Changes the session. -/
def changeSession (f : Session → Session) : Play Unit := Playback.changeHost f

/-- Prints a line. -/
def print (line : String) : Play Unit := do
  Playback.logOne .info line
  changeSession fun session => { session with output := session.output.push line }

/-- Counts a call for which there is no handler. -/
def miss (what : String) : Play Value := do
  changeSession fun session => { session with misses := session.misses + 1 }
  Playback.logOne .debug ("no handler for " ++ what ++ "; evaluating to null")
  return .null

end Play

end Animatic
