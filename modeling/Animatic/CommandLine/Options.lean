import Animatic.Number.Exact
import Animatic.Number.Reader

/-!
# Options

The words of a command line name one script and set options. An option that takes a value has it
behind a `=` or in the next word, which then starts with no hyphen. Behind the word `--` every word
is the script.

* `Options.ofWords` reads the words from left to right; the first one that does not fit, or that
  asks for a text, decides.
-/

namespace Animatic.CommandLine

/-- What a command line asks for. -/
structure Options where
  /-- The path of the script. -/
  script : String
  /-- How many seconds to play. -/
  seconds : Float
  /-- The frame rate, if it is not that of the settings. -/
  fps : Option UInt32
  /-- The path of the settings, if it is not the usual one. -/
  settingsPath : Option String
  /-- Whether a frame lasts as long as it stands for. -/
  realtime : Bool
  /-- Every how many frames a summary is printed. -/
  every : UInt64

/-- Why a command line plays nothing. -/
inductive Refusal where
  | help
  | version
  | misuse
  deriving DecidableEq, Repr

/-- The options that have been given so far. -/
structure Draft where
  script : Option String
  seconds : Option Float
  fps : Option UInt32
  settingsPath : Option String
  realtime : Bool
  every : Option UInt64

namespace Draft

/-- Nothing has been given. -/
def empty : Draft := ⟨none, none, none, none, false, none⟩

/-- The options, if there is a script. -/
def finish (draft : Draft) : Except Refusal Options :=
  match draft.script with
  | none => .error .misuse
  | some script =>
    .ok
      { script
        seconds := draft.seconds.getD 5
        fps := draft.fps
        settingsPath := draft.settingsPath
        realtime := draft.realtime
        every := draft.every.getD 30 }

end Draft

/-- A whole number of digits behind an optional sign. -/
def integer? (text : String) : Option Int :=
  let (isNegative, digits) :=
    match text.toList with
    | '-' :: rest => (true, rest)
    | '+' :: rest => (false, rest)
    | all => (false, all)
  if digits.isEmpty || digits.any (!·.isDigit) then none
  else some (if isNegative then -(Number.digitsValue digits : Int) else Number.digitsValue digits)

/-- A frame rate. -/
def fps? (text : String) : Option UInt32 := do
  let n ← integer? text
  if 0 ≤ n ∧ n ≤ Number.wordLimit then some n.toNat.toUInt32 else none

/-- A number of frames, which has no negative sign. -/
def every? (text : String) : Option UInt64 := do
  let n ← integer? text
  if text.toList.head? ≠ some '-' ∧ n ≤ Number.longLimit then some n.toNat.toUInt64 else none

/-- A path is not empty. -/
def path? (text : String) : Option String := if text.isEmpty then none else some text

/-- Fills a place that is still free with a value that can be read. -/
def fill {α : Type} (place value : Option α) : Except Refusal (Option α) :=
  if place.isNone && value.isSome then .ok value else .error .misuse

/-- The options that take a value. -/
inductive ValueOption where
  | seconds
  | fps
  | config
  | every
  deriving DecidableEq, Repr

/-- The option of a name. -/
def ValueOption.ofName? (name : String) : Option ValueOption :=
  match name with
  | "seconds" => some seconds
  | "fps" => some fps
  | "config" => some config
  | "every" => some every
  | _ => none

/-- Sets an option, which may be done once. -/
def Draft.setValue (draft : Draft) (option : ValueOption) (text : String) :
    Except Refusal Draft :=
  match option with
  | .seconds => return { draft with seconds := ← fill draft.seconds (Number.read? text.toList) }
  | .fps => return { draft with fps := ← fill draft.fps (fps? text) }
  | .config => return { draft with settingsPath := ← fill draft.settingsPath (path? text) }
  | .every => return { draft with every := ← fill draft.every (every? text) }

/-- Names the script, which may be done once. -/
def Draft.setScript (draft : Draft) (text : String) : Except Refusal Draft :=
  return { draft with script := ← fill draft.script (path? text) }

/-- Acts on an option without a value. -/
def Draft.setFlag (draft : Draft) (name : String) : Except Refusal Draft :=
  match name with
  | "realtime" => if draft.realtime then .error .misuse else .ok { draft with realtime := true }
  | "help" => .error .help
  | "version" => .error .version
  | _ => .error .misuse

/-- A word of a command line by its form. -/
inductive Word where
  /-- The mark behind which all words are plain. -/
  | rest
  /-- An option with its value, if that is attached. -/
  | option (name : String) (value : Option String)
  /-- One-letter options. -/
  | letters (letters : List Char)
  | plain (text : String)

/-- The form of a word. -/
def Word.ofText (text : String) : Word :=
  match text.toList with
  | ['-', '-'] => .rest
  | '-' :: '-' :: body =>
    let name := String.ofList (body.takeWhile (· != '='))
    match body.dropWhile (· != '=') with
    | _ :: value => .option name (some (String.ofList value))
    | [] => .option name none
  | '-' :: c :: more => .letters (c :: more)
  | _ => .plain text

/-- Acts on one-letter options: each of the known ones ends the reading. -/
def ofLetters : List Char → Refusal
  | 'h' :: _ => .help
  | 'V' :: _ => .version
  | _ => .misuse

/-- Reads words on top of what has been given. -/
def Draft.read (draft : Draft) : List String → Except Refusal Draft
  | [] => .ok draft
  | word :: more =>
    match Word.ofText word with
    | .rest => more.foldlM Draft.setScript draft
    | .letters letters => .error (ofLetters letters)
    | .plain text => do (← draft.setScript text).read more
    | .option name value =>
      match ValueOption.ofName? name, value with
      | some option, some text => do (← draft.setValue option text).read more
      | none, none => do (← draft.setFlag name).read more
      | none, some _ => .error .misuse
      | some option, none =>
        match more with
        | [] => .error .misuse
        | next :: more =>
          match Word.ofText next with
          | .plain text => do (← draft.setValue option text).read more
          | _ => .error .misuse

/-- The options that the words of a command line give. -/
def Options.ofWords (words : List String) : Except Refusal Options := do
  (← Draft.empty.read words).finish

end Animatic.CommandLine
