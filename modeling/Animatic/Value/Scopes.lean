import Animatic.Value.PropertyMap

/-!
# Scopes

A stack of frames of bindings. Names are looked up from the innermost frame outwards and bound in
the innermost one. The global frame is always there.
-/

namespace Animatic

/-- Frames of bindings: the global one and, innermost first, those of the calls that are running. -/
structure Scopes where
  globals : PropertyMap
  locals : List PropertyMap

namespace Scopes

/-- No bindings. -/
def empty : Scopes := ⟨.empty, []⟩

/-- Opens a frame. -/
def push (scopes : Scopes) : Scopes := { scopes with locals := .empty :: scopes.locals }

/-- Closes the innermost frame, unless it is the global one. -/
def pop (scopes : Scopes) : Scopes := { scopes with locals := scopes.locals.tail }

/-- The number of frames. -/
def depth (scopes : Scopes) : Nat := scopes.locals.length + 1

/-- The value of a name in the innermost frame that binds it. -/
def get? (scopes : Scopes) (name : String) : Option Value :=
  (scopes.locals.findSome? (·.get? name)).or (scopes.globals.get? name)

/-- Binds a name in the innermost frame. -/
def assign (scopes : Scopes) (name : String) (value : Value) : Scopes :=
  match scopes.locals with
  | [] => { scopes with globals := scopes.globals.insert name value }
  | frame :: outer => { scopes with locals := frame.insert name value :: outer }

end Scopes

end Animatic
