import Animatic.CommandLine.Opening

/-!
# Showing frames

A showing plays a script frame by frame. Frame 0 is the recorded scene as it stands; each further
frame starts with one update. A frame prints the lines that the script has printed since the last
one and, on some frames, a summary of what would be drawn.

* `isReported` tells the frames that have a summary.
* `Showing.next` is one frame, and `Showing.run` a number of them.
-/

namespace Animatic.CommandLine

/-- The frames behind the first one that a playing time takes, counting one that is not complete. -/
def frameCount (seconds frameTime : Float) : Nat :=
  Number.ceilWithin Number.longLimit (Number.exact (seconds / frameTime))

/-- Whether a frame has a summary: the last one has, and every `every`-th one. -/
def isReported (every : UInt64) (last frame : Nat) : Bool :=
  frame % max every.toNat 1 == 0 || frame == last

/-- What is to be shown. -/
structure Plan where
  /-- The seconds between two frames. -/
  frameTime : Float
  every : UInt64
  /-- The number of the last frame. -/
  last : Nat

/-- What the options and settings plan to show. -/
def Opening.plan (opening : Opening) : Plan :=
  let frameTime := opening.settings.frameTime
  ⟨frameTime, opening.options.every, frameCount opening.options.seconds frameTime⟩

/-- A player in the course of being shown. -/
structure Showing where
  player : Player
  /-- The number of the next frame. -/
  frame : Nat
  /-- How many of the lines that the script printed have been shown. -/
  shown : Nat

namespace Showing

/-- The lines that the script has printed. -/
def output (showing : Showing) : Array String := showing.player.world.host.output

/-- A showing before its first frame; the lines that recording printed count as shown. -/
def ofPlayer (player : Player) : Showing := ⟨player, 0, player.world.host.output.size⟩

/-- The warnings behind the first `logged` log entries. -/
def warnings (logged : Nat) (showing : Showing) : List String :=
  (showing.player.world.log.extract logged).toList.filterMap LogEntry.warning?

/-- The number of log entries. -/
def logged (showing : Showing) : Nat := showing.player.world.log.size

/-- The lines that have not been shown. -/
def newLines (showing : Showing) : List String := (showing.output.extract showing.shown).toList

/-- The showing when all lines have been shown. -/
def showAll (showing : Showing) : Showing := { showing with shown := showing.output.size }

/-- The summary of a scene and what is drawn of it. -/
def summary (scene : Scene) (calls : List DrawCall) : String :=
  "t=" ++ Number.padLeft 7 (Number.fixed 3 (Number.exact scene.now)) ++ "s  shapes="
    ++ Number.padLeft 3 (Number.natText calls.length) ++ "  vertices="
    ++ Number.padLeft 5 (Number.natText (vertexCount calls)) ++ "  pending="
    ++ Number.natText scene.pending

/-- Brings the player to the next frame. -/
def advance (plan : Plan) (showing : Showing) : Except Fault Showing := do
  if showing.frame = 0 then return showing
  else return { showing with player := ← showing.player.update plan.frameTime }

/-- The summary of the next frame, if it has one. -/
def report (plan : Plan) (showing : Showing) : Except Fault (List String × Showing) := do
  if isReported plan.every plan.last showing.frame then
    let (calls, player) ← showing.player.render
    return ([summary player.world.scene calls], { showing with player })
  else return ([], showing)

/-- The lines of the next frame, and the showing behind it. -/
def next (plan : Plan) (showing : Showing) : Except Fault (List String × Showing) := do
  let showing ← showing.advance plan
  let lines := showing.newLines
  let (reported, showing) ← showing.showAll.report plan
  return (lines ++ reported, { showing with frame := showing.frame + 1 })

/-- The lines of the next `count` frames behind those already there, and whether all of these could
be played. -/
def run (plan : Plan) : Nat → Array String → Showing → Array String × Bool
  | 0, lines, _ => (lines, true)
  | count + 1, lines, showing =>
    match showing.next plan with
    | .error _ => (lines, false)
    | .ok (more, showing) => run plan count (lines ++ more.toArray) showing

end Showing

end Animatic.CommandLine
