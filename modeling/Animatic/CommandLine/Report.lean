import Animatic.CommandLine.Showing

/-!
# The outcome of a command line

`report` is the whole program as a function: from the words of the command line and the files to the
printed lines, the lines on the error output and the exit code.
-/

namespace Animatic.CommandLine

/-- The exit code of a failure that stops the program in the middle. -/
def faultCode : Nat := 101

/-- The version in words. -/
def versionText : String := "tweenscript 0.1.0"

/-- How the program is called. -/
def usageText : String := "Usage: tweenscript [OPTIONS] <SCRIPT>"

/-- What the program is for and what its options mean. -/
def helpLines : List String :=
  ["Play a tweenscript animation", "", usageText, "",
    "Arguments:",
    "  <SCRIPT>  Script to play", "",
    "Options:",
    "      --seconds <SECONDS>  How many seconds of the timeline to play [default: 5]",
    "      --fps <FPS>          Override the configured frame rate",
    "      --config <CONFIG>    Config file; defaults to ~/.tweenscript/config.yaml",
    "      --realtime           Pace frames in wall-clock time instead of stepping as fast as"
      ++ " possible",
    "      --every <EVERY>      Print a frame summary every N frames [default: 30]",
    "  -h, --help               Print help",
    "  -V, --version            Print version"]

/-- What a program run leaves behind. -/
structure Report where
  code : Nat
  output : List String
  problems : List String

/-- The outcome of a command line that plays nothing. -/
def Refusal.report : Refusal → Report
  | help => ⟨0, helpLines, []⟩
  | version => ⟨0, [versionText], []⟩
  | misuse => ⟨2, [], [usageText]⟩

/-- The outcome of a failure before the first frame. -/
def Failure.report (failure : Failure) : Report :=
  match failure with
  | .fault _ => ⟨faultCode, [], [failure.message]⟩
  | _ => ⟨1, [], ["error: " ++ failure.message]⟩

/-- The outcome of playing an opened script. -/
def Opening.report (opening : Opening) : Report :=
  let plan := opening.plan
  let showing := Showing.ofPlayer opening.player
  let (lines, complete) := showing.run plan (plan.last + 1) showing.output
  ⟨if complete then 0 else faultCode, lines.toList, opening.problems⟩

/-- The outcome of a command line, given the content of the files and the directory of the user. -/
def report (content : String → FileContent) (home : String) (words : List String) : Report :=
  match Options.ofWords words with
  | .error refusal => refusal.report
  | .ok options =>
    match options.opening (content (options.settingsFile home)) (content options.script) with
    | .error failure => failure.report
    | .ok opening => opening.report

end Animatic.CommandLine
