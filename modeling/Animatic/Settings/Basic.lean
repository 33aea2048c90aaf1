import Animatic.Motion.Easing
import Animatic.Number.Layout
import Animatic.Scene.Primitive

/-!
# Settings

What a player can be told besides the script. Every setting has a default.
-/

namespace Animatic

/-- The settings shared by the session, the scene and the command line. -/
structure Settings where
  /-- Frames per second. -/
  fps : UInt32
  /-- The seed of the random numbers that a script draws. -/
  seed : UInt64
  /-- The length of a motion for which the script gives none. -/
  defaultDuration : Float
  /-- The curve of a motion for which the script gives none. -/
  defaultEasing : Easing
  bounds : Bounds
  font : String
  textSize : Float32
  circleSegments : UInt32

namespace Settings

/-- What holds without any setting. -/
def default : Settings :=
  { fps := 60
    seed := 42
    defaultDuration := 1
    defaultEasing := .easeInOut
    bounds := ⟨1, 1⟩
    font := "default"
    textSize := 0.1
    circleSegments := 48 }

/-- The seconds between two frames. -/
def frameTime (settings : Settings) : Float := 1 / (max settings.fps 1).toFloat

end Settings

end Animatic
