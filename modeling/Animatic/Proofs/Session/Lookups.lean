import Mathlib
import Animatic.Proofs.Script.Braces
import Animatic.Proofs.Script.Paths
import Animatic.Session.Eval

/-!
# Looking up paths

To look up a path changes nothing but the log, and where the path stands matters to the log alone.

* `AgreeButLog`: computations that give the same whatever has been logged, and only log.
* `eval_samePath`, `evalParts_sameParts`: paths and parts at different positions.
* `namedParts_splice`: `&<…>` and `$<…>` literals with paths in their braces.
-/

namespace Animatic

open Script Literal

variable {α β : Type}

/-- Two computations that give the same value whatever has been logged, and change nothing but the
log. -/
def AgreeButLog (m m' : Play α) : Prop :=
  ∀ (world : World Session) (log log' : Array LogEntry), ∃ value next next',
    m.run { world with log } = .ok (value, { world with log := next }) ∧
      m'.run { world with log := log' } = .ok (value, { world with log := next' })

namespace AgreeButLog

variable {m m' : Play α} {f f' : α → Play β}

theorem pure (value : α) : AgreeButLog (Pure.pure value) (Pure.pure value) := fun _ log log' =>
  ⟨value, log, log', rfl, rfl⟩

theorem bind (hm : AgreeButLog m m') (hf : ∀ value, AgreeButLog (f value) (f' value)) :
    AgreeButLog (m >>= f) (m' >>= f') := by
  intro world log log'
  obtain ⟨value, next, next', hrun, hrun'⟩ := hm world log log'
  obtain ⟨result, last, last', hlast, hlast'⟩ := hf value world next next'
  refine ⟨result, last, last', ?_, ?_⟩
  · rw [StateT.run_bind, hrun]
    exact hlast
  · rw [StateT.run_bind, hrun']
    exact hlast'

theorem logOne (level : LogLevel) (message message' : String) :
    AgreeButLog (Playback.logOne (σ := Session) level message) (Playback.logOne level message') :=
  fun _ _ _ => ⟨(), _, _, rfl, rfl⟩

/-- What is read from a session or a scene does not depend on the log. -/
theorem session : AgreeButLog Play.session Play.session := fun world _ _ =>
  ⟨world.host, _, _, rfl, rfl⟩

theorem scene : AgreeButLog (Playback.scene (σ := Session)) Playback.scene := fun world _ _ =>
  ⟨world.scene, _, _, rfl, rfl⟩

end AgreeButLog

namespace Session

theorem variableValue_agrees (position position' : Position) (name : String) :
    AgreeButLog (variableValue position name) (variableValue position' name) := by
  refine AgreeButLog.session.bind fun session => ?_
  cases session.scopes.get? name with
  | some value => exact .pure value
  | none => exact (AgreeButLog.logOne _ _ _).bind fun _ => .pure _

theorem member_agrees (object : ObjectRef) (name : String) :
    AgreeButLog (member object name) (member object name) := by
  refine AgreeButLog.session.bind fun session => ?_
  cases (session.propertiesOf object).get? name with
  | some value => exact .pure value
  | none =>
    refine AgreeButLog.scene.bind fun scene => ?_
    split <;> exact .pure _

variable (commands : Commands) (callees : Callees)

/-- A path has the same value wherever it stands. -/
theorem eval_samePath {value value' : Expr} (h : SamePath value value') :
    AgreeButLog (eval commands callees value) (eval commands callees value') := by
  induction h with
  | name position position' name =>
    rw [eval, eval]
    exact variableValue_agrees position position' name
  | member position position' _ name ih =>
    rw [eval, eval]
    refine ih.bind fun target => ?_
    cases target with
    | object object => exact member_agrees object name
    | _ => exact .pure _

/-- Parts that differ in positions of paths alone make the same text. -/
theorem evalParts_sameParts {parts parts' : List Part} (h : List.Forall₂ SamePart parts parts') :
    AgreeButLog (evalParts commands callees parts) (evalParts commands callees parts') := by
  induction h with
  | nil =>
    rw [evalParts]
    exact .pure _
  | cons hpart _ ih =>
    cases hpart with
    | text run =>
      rw [evalParts, evalParts]
      exact ih.bind fun following => .pure _
    | path hvalue =>
      rw [evalParts, evalParts]
      refine (eval_samePath commands callees hvalue).bind fun value => ?_
      exact ih.bind fun following => .pure _

end Session

/-- If every span of a text, without the white space around it, is a path that does not begin with
the word for a truth value, then the text has the same parts in a `$<…>` literal and in a `&<…>`
literal, up to positions, and these make the same text in every world. Whatever the text, its pieces
in a `&<…>` literal make it up, and each stands for itself unless it is a span that is a path. -/
theorem namedParts_splice (position : Position) (text : List Char) :
    ((∀ content, .braced content ∈ spans text →
        ∃ path : Path, path.text = Text.trim content ∧ Plain (String.ofList path.first)) →
      ∃ parts, splice position text = .ok parts ∧
        Part.allUnplaced parts = Part.allUnplaced (namedParts position text) ∧
        ∀ commands callees (world : World Session), ∃ result log log',
          (Session.eval commands callees (.interpolated position parts)).run world =
              .ok (.text result, { world with log }) ∧
            (Session.eval commands callees (.interpolated position (namedParts position text))).run
                world = .ok (.text result, { world with log := log' })) ∧
      (spans text).flatMap Span.source = text ∧
      List.Forall₂ (Stands position) (spans text) (namedParts position text) := by
  refine ⟨fun hpaths => ?_, flatMap_source_spans text, namedParts_stand position text⟩
  obtain ⟨parts, hparts, hsame⟩ := splice_of_paths hpaths position
  refine ⟨parts, hparts, (unplaced_eq_of_sameParts hsame).symm, fun commands callees world => ?_⟩
  obtain ⟨result, log', log, hnamed, hspliced⟩ :=
    Session.evalParts_sameParts commands callees hsame world world.log world.log
  refine ⟨result, log, log', ?_, ?_⟩
  · rw [Session.eval, StateT.run_bind, hspliced]
    rfl
  · rw [Session.eval, StateT.run_bind, hnamed]
    rfl

/-- The text `Hi { a.b }!` has the same parts in both kinds of literal. -/
theorem namedParts_splice_greeting :
    (∀ content, .braced content ∈ spans "Hi \x7b a.b \x7d!".toList →
        ∃ path : Path, path.text = Text.trim content ∧ Plain (String.ofList path.first)) ∧
      ∃ parts, splice .start "Hi \x7b a.b \x7d!".toList = .ok parts ∧
        Part.allUnplaced parts =
          [.text "Hi ", .expr (.member .start (.name .start "a") "b"), .text "!"] := by
  have hspans : spans "Hi \x7b a.b \x7d!".toList =
      [.plain "Hi ".toList, .braced " a.b ".toList, .plain "!".toList] := by cbv
  have hpaths : ∀ content, .braced content ∈ spans "Hi \x7b a.b \x7d!".toList →
      ∃ path : Path, path.text = Text.trim content ∧ Plain (String.ofList path.first) := by
    rw [hspans]
    intro content hmem
    obtain rfl : content = " a.b ".toList := by simpa using hmem
    exact ⟨⟨['a'], [['b']], by decide, by decide⟩, by decide,
      by decide, by decide⟩
  have hnamed : Part.allUnplaced (namedParts .start "Hi \x7b a.b \x7d!".toList) =
      [.text "Hi ", .expr (.member .start (.name .start "a") "b"), .text "!"] := by cbv
  obtain ⟨parts, hparts, hunplaced, -⟩ :=
    (namedParts_splice .start "Hi \x7b a.b \x7d!".toList).1 hpaths
  exact ⟨hpaths, parts, hparts, hunplaced.trans hnamed⟩

end Animatic
