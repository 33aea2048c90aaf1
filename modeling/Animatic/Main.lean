import Animatic.CommandLine.Report

/-!
# The program

Reads files, prints lines as they come, and waits between frames where that is asked for. What is
read and printed is decided by the modules below `CommandLine`.
-/

namespace Animatic.CommandLine

/-- The problem that an error of the system stands for. -/
def FileProblem.ofSystem : IO.Error → FileProblem
  | .noFileOrDirectory .. => .missing
  | .permissionDenied .. => .forbidden
  | .inappropriateType _ 21 _ => .isDirectory
  | .inappropriateType .. => .inNoDirectory
  | .otherError code _ => .other code.toNat
  | _ => .notText

/-- Reads a file. -/
def readContent (path : String) : IO FileContent := do
  match ← (IO.FS.readFile path).toBaseIO with
  | .ok text => return .ok text
  | .error e => return .error (.ofSystem e)

/-- Prints lines on the error output. -/
def printProblems (lines : List String) : IO Unit := lines.forM fun line => IO.eprintln line

/-- Prints a report. The result is its exit code. -/
def Report.print (report : Report) : IO UInt32 := do
  report.output.forM fun line => IO.println line
  printProblems report.problems
  return report.code.toUInt32

/-- Waits until `milliseconds` have passed since `start`. -/
def waitUntil (start milliseconds : Nat) : IO Unit := do
  let passed := (← IO.monoMsNow) - start
  IO.sleep (milliseconds - passed).toUInt32

/-- Shows `count` frames. The result is the exit code. -/
def Showing.play (plan : Plan) (paced : Bool) (start : Nat) : Nat → Showing → IO UInt32
  | 0, _ => return 0
  | count + 1, showing => do
    match showing.next plan with
    | .error _ => return faultCode.toUInt32
    | .ok (lines, later) =>
      printProblems (later.warnings showing.logged)
      lines.forM fun line => IO.println line
      if paced then
        let due := plan.frameTime * 1000 * later.frame.toFloat
        waitUntil start (Number.truncWithin Number.longLimit (Number.exact due))
      play plan paced start count later

/-- Opens the script of the options and shows it. -/
def Options.play (options : Options) (home : String) : IO UInt32 := do
  let settingsFile ← readContent (options.settingsFile home)
  let scriptFile ← readContent options.script
  match options.opening settingsFile scriptFile with
  | .error failure => failure.report.print
  | .ok opening =>
    let plan := opening.plan
    let showing := Showing.ofPlayer opening.player
    printProblems (showing.warnings 0 ++ opening.problems)
    showing.output.forM fun line => IO.println line
    showing.play plan options.realtime (← IO.monoMsNow) (plan.last + 1)

end Animatic.CommandLine

/-- Plays the script that the command line names. -/
def main (words : List String) : IO UInt32 := do
  match Animatic.CommandLine.Options.ofWords words with
  | .error refusal => refusal.report.print
  | .ok options => options.play ((← IO.getEnv "HOME").getD "")
