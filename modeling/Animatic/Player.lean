import Animatic.Session.Eval

/-!
# Players

A player records a script into a fresh scene and plays it back frame by frame.
-/

namespace Animatic

/-- What is logged about the problems of a script. -/
def Script.logEntries (script : Script) : List LogEntry :=
  script.diagnostics.map fun d => ⟨.warn, d.text⟩

/-- A script with the world in which it is played. -/
structure Player where
  script : Script
  world : World Session

namespace Player

/-- Runs a script in a recording scene and ends the recording. -/
def record (script : Script) : Play Unit := do
  Playback.log script.logEntries
  Session.run Standard.commands script.statements
  Playback.finishRecording
  Playback.logOne .info ("loaded script: " ++ toString script.statements.length ++ " statements, "
    ++ toString script.diagnostics.length ++ " diagnostics, "
    ++ toString (← Play.session).objects.size ++ " objects")

/-- Reads a script, runs it and makes it ready to be played. Problems in it are kept; whatever could
be read is run. -/
def load (source : String) (settings : Settings) : Except Fault Player := do
  let script := Script.parse source
  let ((), world) ← (record script).run (.initial settings.bounds (.ofSettings settings))
  return ⟨script, world⟩

/-- Plays `dt` seconds. -/
def update (player : Player) (dt : Float) : Except Fault Player := do
  let ((), world) ← (Session.update Standard.commands dt).run player.world
  return { player with world }

/-- Draws the scene as it stands. -/
def render (player : Player) : Except Fault (List DrawCall × Player) := do
  let (calls, world) ← Playback.render.run player.world
  return (calls, { player with world })

/-- Whether every scheduled effect has fired. -/
def isFinished (player : Player) : Bool := player.world.scene.pending == 0

end Player

end Animatic
