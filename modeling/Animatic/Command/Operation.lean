import Animatic.Text.Blank

/-!
# Operations

The fixed set of operations that a primitive understands, and the method names that stand for them.
-/

namespace Animatic

/-- An operation on a primitive. -/
inductive Operation where
  | move
  | scale
  | rotate
  | color
  | fade
  | draw
  | morph
  | morphTo
  | setColor
  | setPosition
  | velocity
  | remove
  deriving DecidableEq, Repr

namespace Operation

/-- The operations by their names in lower case. -/
def names : List (String × Operation) :=
  [("move", move), ("scale", scale), ("rotate", rotate), ("color", color), ("fade", fade),
    ("draw", draw), ("morph", morph), ("morphto", morphTo), ("setcolor", setColor),
    ("setposition", setPosition), ("velocity", velocity), ("remove", remove)]

/-- The operation of a name in lower case. -/
def ofLowerName? (name : String) : Option Operation := names.lookup name

/-- The operation of a method name, ignoring case. An `a` in front marks the animated form, which is
the same operation. -/
def ofMethod? (method : String) : Option Operation :=
  let lower := Text.lower method
  (ofLowerName? lower).or <|
    match lower.toList with
    | 'a' :: rest => ofLowerName? (String.ofList rest)
    | _ => none

end Operation

end Animatic
