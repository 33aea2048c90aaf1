import Animatic.Proofs.Session.Commands
import Animatic.Session.Eval

/-!
# Evaluation and bindings

Evaluation touches no binding outside the innermost frame, and a call touches none at all: its body
binds in a frame of its own, which is gone when the call ends, and whatever the body calls, at once
or through time that passes while it waits, does the same one level further in.

* `agree_eval`, `agree_exec`: evaluation keeps the outer frames, if the calls that it makes do.
* `agree_callFunction`: a call keeps all frames, if its body keeps the outer ones.
* `calleesAgree_watched`: hence so does every call, by recursion on the levels that are left.
-/

namespace Animatic

open Script Play Playback Session

/-! ## Frames -/

namespace Scopes

/-- The condition that the bindings and the depth are given ones. -/
def Exactly (scopes : Scopes) (depth : Nat) : Condition := fun s d => s = scopes ∧ d = depth

theorem frames_ne_nil (scopes : Scopes) : scopes.frames ≠ [] := by simp [frames]

@[simp]
theorem tail_frames_assign (scopes : Scopes) (name : String) (value : Value) :
    (scopes.assign name value).frames.tail = scopes.frames.tail := by
  rw [assign]
  split <;> (rename_i h; simp [frames, h])

theorem tail_frames_bind (scopes : Scopes) (bindings : List (String × Value)) :
    (bindings.foldl (fun scopes (name, value) => scopes.assign name value) scopes).frames.tail =
      scopes.frames.tail := by
  induction bindings generalizing scopes with
  | nil => rfl
  | cons binding rest ih => rw [List.foldl_cons, ih, tail_frames_assign]

/-- Closing a frame gives back the frames around it. -/
theorem pop_eq_of_frames {scopes before : Scopes} (h : scopes.frames.tail = before.frames) :
    scopes.pop = before := by
  obtain ⟨globals, locals⟩ := scopes
  obtain ⟨globals', locals'⟩ := before
  cases locals with
  | nil => simp [frames] at h
  | cons frame outer =>
    simp only [frames, List.cons_append, List.tail_cons] at h
    obtain ⟨rfl, hglobals⟩ := List.append_inj' h rfl
    rw [pop, List.tail_cons, (List.cons.inj hglobals).1]

end Scopes

/-! ## Evaluation within a frame -/

/-- Calls that agree as long as they are made within given frames at a given depth. -/
structure CalleesAgree (outer : List PropertyMap) (depth : Nat) (c c' : Callees) : Prop where
  call : ∀ function arguments,
    Agree (Within outer depth) (c.call function arguments) (c'.call function arguments)
  invoke : ∀ call, Agree (Within outer depth) (c.invoke call) (c'.invoke call)
  watch : ∀ stmt, Agree (Within outer depth) (c.watch stmt) (c'.watch stmt)

namespace Session

section

variable {commands : Commands} (hc : commands.Scoped) {outer : List PropertyMap} {depth : Nat}
  {c c' : Callees} (h : CalleesAgree outer depth c c')

private theorem agree_elapse (h : CalleesAgree outer depth c c') (seconds : Float) :
    Agree (Within outer depth) (elapse c.invoke seconds) (elapse c'.invoke seconds) := by
  refine keeps_scene.bind fun scene => ?_
  split
  · refine keeps_scene.bind fun scene => ?_
    split
    · exact (keeps_changeScene _).bind fun _ => keeps_pure _
    · exact keeps_pure _
  · exact agree_advanceClock h.invoke seconds

theorem agree_wait (h : CalleesAgree outer depth c c') (seconds : Float) :
    Agree (Within outer depth) (wait c.invoke seconds) (wait c'.invoke seconds) := by
  refine (agree_elapse h seconds).bind fun result => ?_
  split
  · exact keeps_pure _
  · exact keeps_logOne _ _

private theorem keeps_buildHost {I : Condition} (typeName : String) (positional : List Value)
    (properties : PropertyMap) : Keeps I (buildHost typeName positional properties) := by
  unfold buildHost
  refine keeps_session.bind fun session => ?_
  refine (keeps_log _).bind fun _ => ?_
  split
  · exact keeps_scene.bind fun _ => (keeps_changeScene _).bind fun _ => keeps_pure _
  · exact (keeps_logOne _ _).bind fun _ => keeps_pure _
  · exact (keeps_logOne _ _).bind fun _ => keeps_pure _

include hc

private theorem keeps_runHook (typeName : String) (object : ObjectRef) :
    Keeps (Within outer depth) (runHook commands typeName object) := by
  unfold runHook
  split
  · rename_i hook hfound
    exact hc.hook? hfound outer depth object
  · exact keeps_pure _

theorem keeps_construct (typeName : String) (arguments : Arguments) (properties : PropertyMap) :
    Keeps (Within outer depth) (construct commands typeName arguments properties) := by
  refine keeps_session.bind fun session => (keeps_buildHost _ _ _).bind fun host => ?_
  refine Agree.bind (keeps_changeSession fun _ h => h) fun _ => ?_
  exact (keeps_runHook hc _ _).bind fun _ => keeps_pure _

omit hc in
private theorem keeps_member {I : Condition} (object : ObjectRef) (name : String) :
    Keeps I (member object name) := by
  refine keeps_session.bind fun session => ?_
  split
  · exact keeps_pure _
  · refine keeps_scene.bind fun scene => ?_
    split <;> exact keeps_pure _

theorem keeps_callMethod (object : ObjectRef) (method : String) (arguments : Arguments) :
    Keeps (Within outer depth) (callMethod commands object method arguments) := by
  unfold callMethod
  split
  · rename_i handler hfound
    exact hc.resolve? hfound outer depth object arguments
  · exact keeps_miss _

private theorem keeps_callMember (target : Value) (name : String) (arguments : Arguments) :
    Keeps (Within outer depth) (callMember commands target name arguments) := by
  unfold callMember
  split
  · exact keeps_callMethod hc _ _ _
  · exact keeps_miss _

omit hc in
private theorem keeps_variableValue {I : Condition} (position : Position) (name : String) :
    Keeps I (variableValue position name) := by
  refine keeps_session.bind fun session => ?_
  split
  · exact keeps_pure _
  · exact (keeps_logOne _ _).bind fun _ => keeps_pure _

include h

private theorem agree_callNamed (name : String) (arguments : Arguments) :
    Agree (Within outer depth) (callNamed commands c name arguments)
      (callNamed commands c' name arguments) := by
  refine keeps_session.bind fun session => ?_
  split
  · exact h.call _ arguments
  · split
    · rename_i handler hfound
      exact hc.global? hfound (agree_wait h) arguments
    · split
      · exact keeps_construct hc _ _ _
      · exact keeps_miss _

omit hc in
private theorem agree_callValue (callee : Value) (arguments : Arguments) :
    Agree (Within outer depth) (callValue c callee arguments) (callValue c' callee arguments) := by
  unfold callValue
  split
  · exact h.call _ arguments
  · exact keeps_miss _

/-! ### Expressions -/

set_option linter.unusedSectionVars false in
mutual

/-- Evaluating an expression keeps the outer frames. -/
theorem agree_eval : (e : Expr) →
    Agree (Within outer depth) (eval commands c e) (eval commands c' e)
  | .number _ _ => by simp only [eval]; exact keeps_pure _
  | .bool _ _ => by simp only [eval]; exact keeps_pure _
  | .text _ _ => by simp only [eval]; exact keeps_pure _
  | .array _ items => by
    simp only [eval]
    exact (agree_evalAll items).bind fun _ => keeps_pure _
  | .name position name => by
    simp only [eval]
    exact keeps_variableValue position name
  | .binary _ op lhs rhs => by
    simp only [eval]
    exact (agree_eval lhs).bind fun _ => (agree_eval rhs).bind fun _ => keeps_pure _
  | .unary _ op operand => by
    simp only [eval]
    exact (agree_eval operand).bind fun _ => keeps_pure _
  | .member _ target name => by
    simp only [eval]
    refine (agree_eval target).bind fun value => ?_
    split
    · exact keeps_member _ _
    · exact keeps_pure _
  | .call _ callee arguments => by
    have hcallee := agree_eval callee
    have harguments := agree_evalArguments arguments
    cases callee with
    | member _ target name =>
      simp only [eval]
      refine (agree_eval target).bind fun value => harguments.bind fun _ => ?_
      exact keeps_callMember hc _ _ _
    | name _ name =>
      simp only [eval]
      exact harguments.bind fun _ => agree_callNamed hc h _ _
    | _ =>
      simp only [eval] at hcallee ⊢
      exact hcallee.bind fun value => harguments.bind fun _ => agree_callValue h value _
  | .construct _ typeName arguments properties => by
    simp only [eval]
    refine (agree_evalArguments arguments).bind fun _ => ?_
    refine (agree_evalProperties properties).bind fun _ => ?_
    exact keeps_construct hc _ _ _
  | .interpolated _ parts => by
    simp only [eval]
    exact (agree_evalParts parts).bind fun _ => keeps_pure _

theorem agree_evalAll : (items : List Expr) →
    Agree (Within outer depth) (evalAll commands c items) (evalAll commands c' items)
  | [] => by simp only [evalAll]; exact keeps_pure _
  | first :: rest => by
    simp only [evalAll]
    exact (agree_eval first).bind fun _ => (agree_evalAll rest).bind fun _ => keeps_pure _

theorem agree_evalArguments : (arguments : List Argument) →
    Agree (Within outer depth) (evalArguments commands c arguments)
      (evalArguments commands c' arguments)
  | [] => by simp only [evalArguments]; exact keeps_pure _
  | .positional value :: rest => by
    simp only [evalArguments]
    exact (agree_eval value).bind fun _ => (agree_evalArguments rest).bind fun _ => keeps_pure _
  | .named name value :: rest => by
    simp only [evalArguments]
    exact (agree_eval value).bind fun _ => (agree_evalArguments rest).bind fun _ => keeps_pure _

theorem agree_evalProperties : (properties : List PropertyInit) →
    Agree (Within outer depth) (evalProperties commands c properties)
      (evalProperties commands c' properties)
  | [] => by simp only [evalProperties]; exact keeps_pure _
  | .mk name value :: rest => by
    simp only [evalProperties]
    exact (agree_eval value).bind fun _ => (agree_evalProperties rest).bind fun _ => keeps_pure _

theorem agree_evalParts : (parts : List Part) →
    Agree (Within outer depth) (evalParts commands c parts) (evalParts commands c' parts)
  | [] => by simp only [evalParts]; exact keeps_pure _
  | .text run :: rest => by
    simp only [evalParts]
    exact (agree_evalParts rest).bind fun _ => keeps_pure _
  | .expr value :: rest => by
    simp only [evalParts]
    exact (agree_eval value).bind fun _ => (agree_evalParts rest).bind fun _ => keeps_pure _

end

/-! ### Statements -/

omit hc h in
private theorem keeps_bind (name : String) (value : Value) :
    Keeps (Within outer depth) (changeSession fun session =>
      { session with scopes := session.scopes.assign name value }) :=
  keeps_changeSession fun _ hwithin => ⟨(Scopes.tail_frames_assign _ _ _).trans hwithin.1, hwithin.2⟩

private theorem agree_assign (target : Expr) (value : Value) :
    Agree (Within outer depth) (assign commands c target value)
      (assign commands c' target value) := by
  unfold assign
  split
  · exact keeps_bind _ _
  · refine (agree_eval hc h _).bind fun owner => ?_
    split
    · refine keeps_changeSession fun session hwithin => ?_
      rw [Session.setProperty]
      split <;> exact hwithin
    · exact keeps_logOne _ _
  · exact keeps_logOne _ _

omit hc h in
private theorem agree_iterate {I : Condition} {body body' : Play Flow} (hbody : Agree I body body')
    (count : Nat) : Agree I (iterate body count) (iterate body' count) := by
  induction count with
  | zero => exact keeps_pure _
  | succ count ih =>
    refine hbody.bind fun flow => ?_
    cases flow with
    | leave value => exact keeps_pure _
    | normal => exact ih

set_option linter.unusedSectionVars false in
mutual

/-- Running a statement keeps the outer frames. -/
theorem agree_exec : (stmt : Stmt) →
    Agree (Within outer depth) (exec commands c stmt) (exec commands c' stmt)
  | .assign _ target value => by
    simp only [exec]
    refine (h.watch _).bind fun _ => (agree_eval hc h value).bind fun _ => ?_
    exact (agree_assign hc h target _).bind fun _ => keeps_pure _
  | .expr _ value => by
    simp only [exec]
    exact (h.watch _).bind fun _ => (agree_eval hc h value).bind fun _ => keeps_pure _
  | .wait _ seconds => by
    simp only [exec]
    refine (h.watch _).bind fun _ => (agree_eval hc h seconds).bind fun _ => ?_
    exact (agree_wait h _).bind fun _ => keeps_pure _
  | .loop _ count body => by
    simp only [exec]
    refine (h.watch _).bind fun _ => (agree_eval hc h count).bind fun _ => ?_
    exact agree_iterate (agree_execAll body) _
  | .define _ name _ _ => by
    simp only [exec]
    exact (h.watch _).bind fun _ => (keeps_bind name _).bind fun _ => keeps_pure _
  | .leave _ none => by
    simp only [exec]
    exact (h.watch _).bind fun _ => keeps_pure _
  | .leave _ (some value) => by
    simp only [exec]
    exact (h.watch _).bind fun _ => (agree_eval hc h value).bind fun _ => keeps_pure _

theorem agree_execAll : (body : List Stmt) →
    Agree (Within outer depth) (execAll commands c body) (execAll commands c' body)
  | [] => by simp only [execAll]; exact keeps_pure _
  | first :: rest => by
    simp only [execAll]
    refine (agree_exec first).bind fun flow => ?_
    cases flow with
    | leave value => exact keeps_pure _
    | normal => exact agree_execAll rest

end

theorem agree_runAll (statements : List Stmt) :
    Agree (Within outer depth) (runAll commands c statements) (runAll commands c' statements) := by
  induction statements with
  | nil => exact keeps_pure _
  | cons first rest ih =>
    refine (agree_exec hc h first).bind fun flow => ?_
    cases flow with
    | leave value => exact keeps_logOne _ _
    | normal => exact ih

end

/-! ## Calls -/

/-- What a call does once its frame is open. -/
def bodyOf (commands : Commands) (c : Callees) (function : Function) : Play Value := do
  let flow ← execAll commands c function.body
  changeSession depart
  match flow with
  | .leave value => return value
  | .normal => return .null

theorem run_callFunction (commands : Commands) (c : Callees) (function : Function)
    (arguments : Arguments) (world : World Session) :
    (callFunction commands c function arguments).run world =
      if depthLimit ≤ world.host.depth then (refuse function).run world
      else (bodyOf commands c function).run
        { world with host := enter function arguments world.host } := by
  unfold callFunction
  change StateT.run (if depthLimit ≤ world.host.depth then _ else _) world = _
  split <;> rfl

theorem keeps_refuse {I : Condition} (function : Function) : Keeps I (refuse function) :=
  (keeps_logOne _ _).bind fun _ => keeps_pure _

private theorem within_enter (function : Function) (arguments : Arguments) (session : Session) :
    Within session.scopes.frames (session.depth + 1) (enter function arguments session).scopes
      (enter function arguments session).depth :=
  ⟨Scopes.tail_frames_bind _ _, rfl⟩

private theorem exactly_depart {scopes : Scopes} {depth : Nat} {session : Session}
    (h : Within scopes.frames (depth + 1) session.scopes session.depth) :
    scopes.Exactly depth (depart session).scopes (depart session).depth :=
  ⟨Scopes.pop_eq_of_frames h.1, by rw [depart, h.2, Nat.add_sub_cancel]⟩

section

variable {commands : Commands} (hc : commands.Scoped) {scopes : Scopes} {depth : Nat}
  {c c' : Callees} (h : depth < depthLimit → CalleesAgree scopes.frames (depth + 1) c c')

include hc h

/-- A call leaves every frame and the depth as they were. -/
theorem agree_callFunction (function : Function) (arguments : Arguments) :
    Agree (scopes.Exactly depth) (callFunction commands c function arguments)
      (callFunction commands c' function arguments) := by
  rintro world ⟨rfl, rfl⟩
  rw [run_callFunction, run_callFunction]
  split
  · exact keeps_refuse function world ⟨rfl, rfl⟩
  · rename_i hdepth
    have hbody := agree_execAll hc (h (Nat.not_le.mp hdepth)) function.body
    obtain ⟨hsame, hkeep⟩ := hbody { world with host := enter function arguments world.host }
      (within_enter function arguments world.host)
    unfold bodyOf
    refine ⟨?_, fun value next hrun => ?_⟩
    · rw [StateT.run_bind, StateT.run_bind, hsame]
    · obtain ⟨flow, middle, hflow, hrest⟩ := run_bind_eq_ok hrun
      have hback := exactly_depart (hkeep flow middle hflow)
      cases flow with
      | leave v =>
        obtain ⟨-, rfl⟩ := Prod.mk.inj (Except.ok.inj hrest)
        exact hback
      | normal =>
        obtain ⟨-, rfl⟩ := Prod.mk.inj (Except.ok.inj hrest)
        exact hback

theorem agree_invokeFunction (call : Invocation) :
    Agree (scopes.Exactly depth) (invokeFunction commands c call)
      (invokeFunction commands c' call) := by
  refine keeps_session.bind fun session => ?_
  split
  · exact keeps_pure _
  · exact (agree_callFunction hc h _ _).bind fun _ => keeps_pure _

end

/-! ## All levels -/

/-- A choice of frames and depths that holds of a call if it holds of where the call is made. -/
def Inward (P : List PropertyMap → Nat → Prop) : Prop :=
  ∀ frames depth, frames ≠ [] → P frames.tail depth → depth < depthLimit → P frames (depth + 1)

theorem agree_of_exactly {outer : List PropertyMap} {depth : Nat} {α : Type} {m m' : Play α}
    (h : ∀ scopes : Scopes, scopes.frames.tail = outer → Agree (scopes.Exactly depth) m m') :
    Agree (Within outer depth) m m' := by
  rintro world ⟨hframes, rfl⟩
  obtain ⟨hsame, hkeep⟩ := h world.host.scopes hframes world ⟨rfl, rfl⟩
  refine ⟨hsame, fun a next hrun => ?_⟩
  obtain ⟨hscopes, hdepth⟩ := hkeep a next hrun
  exact ⟨hscopes ▸ hframes, hdepth⟩

theorem run_call_of_limit {commands : Commands} {watch : Stmt → Play Unit} {levels : Nat}
    {function : Function} {arguments : Arguments} {world : World Session}
    (h : depthLimit ≤ world.host.depth) :
    ((watchedCallees commands watch levels).call function arguments).run world =
      (refuse function).run world := by
  cases levels with
  | zero => rfl
  | succ levels => exact (run_callFunction _ _ _ _ _).trans (if_pos h)

theorem run_invokeFunction_of_limit {commands : Commands} {c : Callees} {call : Invocation}
    {world : World Session} (h : depthLimit ≤ world.host.depth) :
    (invokeFunction commands c call).run world =
      .ok (.error (.tooDeep call.function.name), world) := by
  change StateT.run (if depthLimit ≤ world.host.depth then _ else _) world = _
  rw [if_pos h]
  rfl

theorem run_invoke_of_limit {commands : Commands} {watch : Stmt → Play Unit} {levels : Nat}
    {call : Invocation} {world : World Session} (h : depthLimit ≤ world.host.depth) :
    ((watchedCallees commands watch levels).invoke call).run world =
      .ok (.error (.tooDeep call.function.name), world) := by
  cases levels with
  | zero => rfl
  | succ levels => exact run_invokeFunction_of_limit h

/-- Where no level is left, every call is refused. -/
private theorem exactly_of_limit {commands : Commands} {watch watch' : Stmt → Play Unit}
    {levels levels' : Nat} {scopes : Scopes} {depth : Nat} (h : depthLimit ≤ depth) :
    (∀ function arguments, Agree (scopes.Exactly depth)
      ((watchedCallees commands watch levels).call function arguments)
      ((watchedCallees commands watch' levels').call function arguments)) ∧
    ∀ call, Agree (scopes.Exactly depth) ((watchedCallees commands watch levels).invoke call)
      ((watchedCallees commands watch' levels').invoke call) := by
  refine ⟨fun function arguments => ?_, fun call => ?_⟩
  · rintro world ⟨rfl, rfl⟩
    rw [run_call_of_limit h, run_call_of_limit h]
    exact keeps_refuse function world ⟨rfl, rfl⟩
  · rintro world ⟨rfl, rfl⟩
    rw [run_invoke_of_limit h, run_invoke_of_limit h]
    exact keeps_pure _ world ⟨rfl, rfl⟩

section

variable {commands : Commands} (hc : commands.Scoped) {watch watch' : Stmt → Play Unit}
  {P : List PropertyMap → Nat → Prop} (hP : Inward P)
  (hwatch : ∀ outer depth, P outer depth → ∀ stmt,
    Agree (Within outer depth) (watch stmt) (watch' stmt))

include hc hP hwatch

/-- Calls with enough levels left agree, however many there are. -/
theorem exactly_watchedCallees (levels levels' : Nat) (scopes : Scopes) (depth : Nat)
    (hlevels : depthLimit ≤ depth + levels) (hlevels' : depthLimit ≤ depth + levels')
    (hp : P scopes.frames.tail depth) :
    (∀ function arguments, Agree (scopes.Exactly depth)
      ((watchedCallees commands watch levels).call function arguments)
      ((watchedCallees commands watch' levels').call function arguments)) ∧
    ∀ call, Agree (scopes.Exactly depth) ((watchedCallees commands watch levels).invoke call)
      ((watchedCallees commands watch' levels').invoke call) := by
  induction levels generalizing levels' scopes depth with
  | zero => exact exactly_of_limit hlevels
  | succ levels ih =>
    by_cases hlimit : depthLimit ≤ depth
    · exact exactly_of_limit hlimit
    · obtain ⟨levels', rfl⟩ : ∃ n, levels' = n + 1 := ⟨levels' - 1, by omega⟩
      -- one level further in, the frames of this one are the outer frames
      have hinner : depth < depthLimit → CalleesAgree scopes.frames (depth + 1)
          (watchedCallees commands watch levels) (watchedCallees commands watch' levels') := by
        intro hlt
        have hp' := hP scopes.frames depth scopes.frames_ne_nil hp hlt
        refine ⟨fun function arguments => ?_, fun call => ?_, ?_⟩
        · exact agree_of_exactly fun inner hframes =>
            (ih levels' inner _ (by omega) (by omega) (hframes ▸ hp')).1 function arguments
        · exact agree_of_exactly fun inner hframes =>
            (ih levels' inner _ (by omega) (by omega) (hframes ▸ hp')).2 call
        · cases levels <;> cases levels' <;> exact hwatch _ _ hp'
      exact ⟨agree_callFunction hc hinner, agree_invokeFunction hc hinner⟩

/-- Calls with enough levels left agree within frames. -/
theorem calleesAgree_watched {levels levels' : Nat} {outer : List PropertyMap} {depth : Nat}
    (hlevels : depthLimit ≤ depth + levels) (hlevels' : depthLimit ≤ depth + levels')
    (hp : P outer depth) :
    CalleesAgree outer depth (watchedCallees commands watch levels)
      (watchedCallees commands watch' levels') := by
  refine ⟨fun function arguments => ?_, fun call => ?_, ?_⟩
  · refine agree_of_exactly fun scopes hframes => ?_
    exact (exactly_watchedCallees hc hP hwatch _ _ scopes _ hlevels hlevels' (hframes ▸ hp)).1 _ _
  · refine agree_of_exactly fun scopes hframes => ?_
    exact (exactly_watchedCallees hc hP hwatch _ _ scopes _ hlevels hlevels' (hframes ▸ hp)).2 _
  · cases levels <;> cases levels' <;> exact hwatch _ _ hp

end

end Session

end Animatic
