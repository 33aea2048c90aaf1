import Animatic.Number.Exact
import Animatic.Text.Blank

/-!
# Easing curves

A curve maps the progress of a motion, from zero to one, to the share of the way that is covered.
All curves keep both ends.
-/

namespace Animatic

/-- How a motion speeds up and slows down. -/
inductive Easing where
  | linear
  | easeIn
  | easeOut
  | easeInOut
  deriving DecidableEq, Repr

namespace Easing

/-- The share of the way covered at a progress, which is first brought between zero and one. -/
def apply (easing : Easing) (progress : Float) : Float :=
  let t := Number.clamp 0 1 progress
  match easing with
  | linear => t
  | easeIn => t * t
  | easeOut => 1 - (1 - t) * (1 - t)
  | easeInOut => t * t * (3 - 2 * t)

/-- The curve of a name, in which case, underscores and hyphens do not matter. -/
def ofName? (name : String) : Option Easing :=
  match Text.lower (String.ofList (name.toList.filter fun c => c != '_' && c != '-')) with
  | "linear" => some linear
  | "easein" | "in" => some easeIn
  | "easeout" | "out" => some easeOut
  | "easeinout" | "inout" | "smooth" | "smoothstep" => some easeInOut
  | _ => none

/-- The name of a curve in messages. -/
def title : Easing → String
  | linear => "Linear"
  | easeIn => "EaseIn"
  | easeOut => "EaseOut"
  | easeInOut => "EaseInOut"

end Easing

end Animatic
