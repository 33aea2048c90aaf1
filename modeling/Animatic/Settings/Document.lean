import Animatic.Settings.Basic
import Animatic.Yaml.Typed
import Animatic.Yaml.Writer

/-!
# Settings as a document

Settings are kept in a document with one entry for each of them. An entry that is left out has its
default, and other entries are ignored.

* `Settings.ofDocument?` reads a document; a setting that is given twice, or not in its form, spoils
  it.
* `Settings.document` writes all settings.
-/

namespace Animatic

/-- The name of a curve in a document. -/
def Easing.documentName : Easing → String
  | linear => "linear"
  | easeIn => "easein"
  | easeOut => "easeout"
  | easeInOut => "easeinout"

/-- The curve that a node names. -/
def Easing.ofNode? (node : Yaml.Node) : Option Easing := do
  let name ← node.choice?
  [Easing.linear, .easeIn, .easeOut, .easeInOut].find? (·.documentName == name)

/-- The bounds that a node gives along both axes. -/
def Bounds.ofNode? (node : Yaml.Node) : Option Bounds := do
  match ← node.items? with
  | [x, y] => return ⟨Number.narrow (← x.number?), Number.narrow (← y.number?)⟩
  | _ => none

namespace Settings

/-- The setting of a name, read from the fields of a document. -/
def setting? {α : Type} (fields : List (String × Yaml.Node)) (name : String)
    (read? : Yaml.Node → Option α) (default : α) : Option α :=
  match fields.filter (·.1 == name) with
  | [] => some default
  | [(_, node)] => read? node
  | _ => none

/-- Settings from the fields of a document. -/
def ofFields? (fields : List (String × Yaml.Node)) : Option Settings := do
  let fps ← setting? fields "fps" (fun node => (node.natural? Number.wordLimit).map Nat.toUInt32)
    default.fps
  let seed ← setting? fields "seed" (fun node => (node.natural? Number.longLimit).map Nat.toUInt64)
    default.seed
  let defaultDuration ← setting? fields "default_duration" Yaml.Node.number? default.defaultDuration
  let defaultEasing ← setting? fields "default_easing" Easing.ofNode? default.defaultEasing
  let bounds ← setting? fields "bounds" Bounds.ofNode? default.bounds
  let font ← setting? fields "font" Yaml.Node.text? default.font
  let textSize ← setting? fields "text_size" (fun node => node.number?.map Number.narrow)
    default.textSize
  let circleSegments ← setting? fields "circle_segments"
    (fun node => (node.natural? Number.wordLimit).map Nat.toUInt32) default.circleSegments
  return { fps, seed, defaultDuration, defaultEasing, bounds, font, textSize, circleSegments }

/-- Reads settings from the text of a document. An empty document gives the defaults. -/
def ofDocument? (text : String) : Option Settings := do
  match ← Yaml.document? text with
  | none => return default
  | some root => ofFields? (← root.fields?)

/-- Writes settings as the text of a document. -/
def document (settings : Settings) : String :=
  String.join [
    "fps: ", Number.natText settings.fps.toNat, "\n",
    "seed: ", Number.natText settings.seed.toNat, "\n",
    "default_duration: ", Yaml.floatValue settings.defaultDuration, "\n",
    "default_easing: ", settings.defaultEasing.documentName, "\n",
    "bounds:\n- ", Yaml.float32Value settings.bounds.x, "\n- ",
    Yaml.float32Value settings.bounds.y, "\n",
    "font: ", Yaml.textValue settings.font, "\n",
    "text_size: ", Yaml.float32Value settings.textSize, "\n",
    "circle_segments: ", Number.natText settings.circleSegments.toNat, "\n"]

end Settings

end Animatic
