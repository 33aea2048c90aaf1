/-!
# Primitive identities

A scene numbers the primitives it owns, in the order it took them in, and never uses a number twice.
-/

namespace Animatic

/-- Identifies a primitive that a scene owns. -/
structure PrimitiveId where
  number : Nat
  deriving DecidableEq, Repr

/-- An identity as it appears in messages. -/
def PrimitiveId.text (id : PrimitiveId) : String := "PrimitiveId(" ++ toString id.number ++ ")"

end Animatic
