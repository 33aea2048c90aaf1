import Animatic.CommandLine.Options
import Animatic.Player
import Animatic.Settings.Document

/-!
# Opening a script

Before the first frame the settings and the script are read from their files and the script is
recorded.

* Settings that were asked for must be readable; the usual ones may be missing or spoiled, and are
  then the defaults.
-/

namespace Animatic.CommandLine

/-- Why a file could not be read. -/
inductive FileProblem where
  | missing
  | forbidden
  | isDirectory
  | inNoDirectory
  | notText
  | other (code : Nat)
  deriving DecidableEq, Repr

/-- A problem of the system with its number. -/
def systemProblem (text : String) (code : Nat) : String :=
  text ++ " (os error " ++ Number.natText code ++ ")"

/-- The text of a problem with a file. -/
def FileProblem.message : FileProblem → String
  | missing => systemProblem "No such file or directory" 2
  | forbidden => systemProblem "Permission denied" 13
  | isDirectory => systemProblem "Is a directory" 21
  | inNoDirectory => systemProblem "Not a directory" 20
  | notText => "stream did not contain valid UTF-8"
  | other code => systemProblem "Unknown error" code

/-- The content of a file. -/
abbrev FileContent := Except FileProblem String

/-- Why nothing can be played. -/
inductive Failure where
  | settingsUnreadable (problem : FileProblem)
  | settingsSpoiled
  | scriptUnreadable (path : String) (problem : FileProblem)
  | fault (fault : Fault)

/-- The text of a failure. -/
def Failure.message : Failure → String
  | settingsUnreadable problem => "failed to read config: " ++ problem.message
  | settingsSpoiled => "invalid config"
  | scriptUnreadable path problem => "cannot read " ++ path ++ ": " ++ problem.message
  | fault _ => "the animation cannot go on"

/-- The path of the settings, given the directory of the user. -/
def Options.settingsFile (options : Options) (home : String) : String :=
  options.settingsPath.getD (home ++ "/.tweenscript/config.yaml")

/-- The settings in a file. -/
def readSettings (file : FileContent) : Except Failure Settings :=
  match file with
  | .error problem => .error (.settingsUnreadable problem)
  | .ok text => (Settings.ofDocument? text).elim (.error .settingsSpoiled) .ok

/-- The usual settings: a file that is missing or spoiled has none. -/
def usualSettings? (file : FileContent) : Option Settings := (readSettings file).toOption

/-- The settings that the options and the file of settings give together. -/
def Options.settings (options : Options) (file : FileContent) : Except Failure Settings := do
  let settings ←
    if options.settingsPath.isSome then readSettings file
    else pure ((usualSettings? file).getD .default)
  return { settings with fps := options.fps.getD settings.fps }

/-- A script that is ready to be played. -/
structure Opening where
  options : Options
  settings : Settings
  player : Player

/-- Opens the script of the options, given the content of both files. -/
def Options.opening (options : Options) (settingsFile scriptFile : FileContent) :
    Except Failure Opening := do
  let settings ← options.settings settingsFile
  let source ← scriptFile.mapError (.scriptUnreadable options.script ·)
  let player ← (Player.load source settings).mapError .fault
  return ⟨options, settings, player⟩

/-- What is said about the problems of the script. -/
def Opening.problems (opening : Opening) : List String :=
  opening.player.script.diagnostics.map fun d => opening.options.script ++ ": " ++ d.text

end Animatic.CommandLine
