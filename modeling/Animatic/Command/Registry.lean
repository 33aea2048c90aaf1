import Animatic.Command.Operation
import Animatic.Scene.Shape

/-!
# Registries

A registry tells which handler serves a method of a primitive kind, a global command or the
construction of a type. A method handler may be registered for one kind or for any; the one for a
kind comes first. Names of globals and types are compared ignoring case.
-/

namespace Animatic

/-- What a method handler is registered for. -/
inductive TypeTag where
  | any
  | kind (kind : PrimitiveKind)
  deriving DecidableEq, Repr

/-- An association list in which a key occurs once: gives a key a value, in place if it is
present. -/
def associate {κ ν : Type} [DecidableEq κ] (key : κ) (value : ν) : List (κ × ν) → List (κ × ν)
  | [] => [(key, value)]
  | entry :: rest =>
    if entry.1 = key then (key, value) :: rest else entry :: associate key value rest

/-- Handlers of methods, globals and constructions. -/
structure Registry (Method Global Hook : Type) where
  methods : List ((TypeTag × Operation) × Method)
  globals : List (String × Global)
  hooks : List (String × Hook)

namespace Registry

variable {Method Global Hook : Type}

/-- A registry without handlers. -/
def empty : Registry Method Global Hook := ⟨[], [], []⟩

/-- Registers a method handler, in place of the one for the same kind and operation. -/
def registerMethod (registry : Registry Method Global Hook) (tag : TypeTag) (operation : Operation)
    (handler : Method) : Registry Method Global Hook :=
  { registry with methods := associate (tag, operation) handler registry.methods }

/-- Registers a global command, in place of the one of the same name. -/
def registerGlobal (registry : Registry Method Global Hook) (name : String) (handler : Global) :
    Registry Method Global Hook :=
  { registry with globals := associate (Text.lower name) handler registry.globals }

/-- Registers what is done with a new object of a type, in place of what was. -/
def registerHook (registry : Registry Method Global Hook) (typeName : String) (hook : Hook) :
    Registry Method Global Hook :=
  { registry with hooks := associate (Text.lower typeName) hook registry.hooks }

/-- The handler of an operation on a kind, or else the one on any kind. -/
def method? (registry : Registry Method Global Hook) (kind : PrimitiveKind)
    (operation : Operation) : Option Method :=
  (registry.methods.lookup (.kind kind, operation)).or (registry.methods.lookup (.any, operation))

/-- The handler of a method of a type, both given by name. -/
def resolve? (registry : Registry Method Global Hook) (typeName method : String) :
    Option Method := do
  let kind ← PrimitiveKind.ofName? typeName
  let operation ← Operation.ofMethod? method
  registry.method? kind operation

/-- The handler of a global command. -/
def global? (registry : Registry Method Global Hook) (name : String) : Option Global :=
  registry.globals.lookup (Text.lower name)

/-- What is done with a new object of a type. -/
def hook? (registry : Registry Method Global Hook) (typeName : String) : Option Hook :=
  registry.hooks.lookup (Text.lower typeName)

/-- The names of the global commands in ascending order. -/
def globalNames (registry : Registry Method Global Hook) : List String :=
  (registry.globals.map (·.1)).mergeSort fun a b => decide (a ≤ b)

end Registry

end Animatic
