import Animatic.Text.Blank

/-!
# Channels

The scalar channels of a primitive that a script can set and a tween can drive.
-/

namespace Animatic

/-- A scalar channel of a primitive. -/
inductive Channel where
  | x
  | y
  | scaleX
  | scaleY
  | rotation
  | red
  | green
  | blue
  | alpha
  /-- The share of the outline that is drawn. -/
  | reveal
  deriving DecidableEq, Repr

namespace Channel

/-- The colour channels in their usual order. -/
def colors : List Channel := [red, green, blue, alpha]

/-- The channel of a name, ignoring case. -/
def ofName? (name : String) : Option Channel :=
  match Text.lower name with
  | "x" => some x
  | "y" => some y
  | "scalex" => some scaleX
  | "scaley" => some scaleY
  | "rotation" => some rotation
  | "red" => some red
  | "green" => some green
  | "blue" => some blue
  | "alpha" => some alpha
  | "reveal" => some reveal
  | _ => none

end Channel

end Animatic
