import Animatic.Proofs.Session.Runs

/-!
# Evaluation comes to an end

Functions may call themselves and each other, at once or through effects that fire while they wait,
and a loop may ask for any number of passes. Evaluation with a budget follows these calls and passes
as they come and gives up when the budget is used up: nothing but the budget bounds its recursion.

* `execWithin`, `calleesWithin`: evaluation with a budget.
* `calleesWithin_succ`: with a budget that is large enough for every loop, a call takes one of it.
* `call_outermost`: without a budget, evaluation makes the calls of evaluation itself.
* `evaluation_ends`: there is a budget from which on evaluation is what it is without one, whatever
  is done when a budget is used up.
-/

namespace Animatic.Session

open Script Play Playback

/-! ## Budgets -/

/-- What is done instead of going on when a budget is used up. -/
structure Spent where
  call : Function → Arguments → Play Value
  invoke : Invoker Session
  pass : Play Flow

/-- Runs a body a number of times, unless it leaves; each pass takes one of the budget. -/
def iterateWithin (spent body : Play Flow) : Nat → Nat → Play Flow
  | _, 0 => return .normal
  | 0, _ + 1 => spent
  | budget + 1, count + 1 => do
    match ← body with
    | .leave value => return .leave value
    | .normal => iterateWithin spent body budget count

section

variable (commands : Commands) (spent : Spent) (callees : Callees) (budget : Nat)

mutual

/-- Runs a statement whose loops have a budget. -/
def execWithin : Stmt → Play Flow
  | .loop position count body => do
    callees.watch (.loop position count body)
    let count ← eval commands callees count
    iterateWithin spent.pass (execAllWithin body) budget
      (Number.truncWithin Number.longLimit (Number.exact count.toNumber))
  | stmt => exec commands callees stmt

/-- Runs statements whose loops have a budget, in order, unless one leaves. -/
def execAllWithin : List Stmt → Play Flow
  | [] => return .normal
  | first :: rest => do
    match ← execWithin first with
    | .leave value => return .leave value
    | .normal => execAllWithin rest

end

/-- Calls a function whose loops have a budget. -/
def callFunctionWithin (function : Function) (arguments : Arguments) : Play Value := do
  if depthLimit ≤ (← session).depth then refuse function
  else
    changeSession (enter function arguments)
    let flow ← execAllWithin commands spent callees budget function.body
    changeSession depart
    match flow with
    | .leave value => return value
    | .normal => return .null

/-- Calls the function of a scheduled invocation, whose loops have a budget. -/
def invokeFunctionWithin : Invoker Session := fun call => do
  if depthLimit ≤ (← session).depth then return .error (.tooDeep call.function.name)
  else
    let _ ← callFunctionWithin commands spent callees budget call.function (.ofList call.arguments)
    return .ok ()

end

/-- The calls that can be made with a budget; each takes one of it. -/
def calleesWithin (commands : Commands) (spent : Spent) : Nat → Callees
  | 0 => { call := spent.call, invoke := spent.invoke, watch := fun _ => return () }
  | budget + 1 =>
    let inner := calleesWithin commands spent budget
    { call := callFunctionWithin commands spent inner budget
      invoke := invokeFunctionWithin commands spent inner budget
      watch := fun _ => return () }

/-! ## Loops -/

private theorem iterateWithin_eq (spent body : Play Flow) {budget count : Nat}
    (h : count ≤ budget) : iterateWithin spent body budget count = iterate body count := by
  induction count generalizing budget with
  | zero => cases budget <;> rfl
  | succ count ih =>
    obtain ⟨budget, rfl⟩ : ∃ n, budget = n + 1 := ⟨budget - 1, by omega⟩
    rw [iterateWithin, iterate]
    refine bind_congr fun flow => ?_
    cases flow with
    | leave value => rfl
    | normal => exact ih (by omega)

section

variable (commands : Commands) (spent : Spent) (c : Callees) {budget : Nat}

mutual

private theorem execWithin_eq (h : Number.longLimit ≤ budget) : (stmt : Stmt) →
    execWithin commands spent c budget stmt = exec commands c stmt
  | .loop position count body => by
    rw [execWithin, exec, execAllWithin_eq h body]
    refine bind_congr fun _ => bind_congr fun count => ?_
    -- a loop never asks for more passes than the largest word, whatever its count
    exact iterateWithin_eq _ _ (Nat.le_trans (Number.wholeWithin_le _ _ _) h)
  | .assign .. | .expr .. | .wait .. | .define .. | .leave .. => by
    rw [execWithin]
    intro _ _ _ h
    cases h

private theorem execAllWithin_eq (h : Number.longLimit ≤ budget) : (body : List Stmt) →
    execAllWithin commands spent c budget body = execAll commands c body
  | [] => by rw [execAllWithin, execAll]
  | first :: rest => by
    rw [execAllWithin, execWithin_eq h first, execAllWithin_eq h rest]
    rfl

end

variable (h : Number.longLimit ≤ budget)

include h

private theorem callFunctionWithin_eq :
    callFunctionWithin commands spent c budget = callFunction commands c := by
  funext function arguments
  rw [callFunctionWithin, execAllWithin_eq commands spent c h]
  rfl

/-- With a budget that is large enough for every loop, a call takes one of it. -/
theorem calleesWithin_succ : calleesWithin commands spent (budget + 1) =
    { call := callFunction commands (calleesWithin commands spent budget)
      invoke := invokeFunction commands (calleesWithin commands spent budget)
      watch := fun _ => return () } := by
  have hinvoke : invokeFunctionWithin commands spent (calleesWithin commands spent budget) budget =
      invokeFunction commands (calleesWithin commands spent budget) := by
    funext call
    rw [invokeFunctionWithin, callFunctionWithin_eq commands spent _ h, invokeFunction]
  rw [calleesWithin, callFunctionWithin_eq commands spent _ h, hinvoke]

end

/-! ## Calls -/

section

variable {commands : Commands} (hc : commands.Scoped) (spent : Spent)

include hc

/-- The session counts the calls that run, so that a budget for one more than may be nested is not
used up. -/
private theorem exactly_calleesWithin (calls levels : Nat) (scopes : Scopes) (depth : Nat)
    (hpos : 0 < calls) (hcalls : depthLimit < depth + calls)
    (hlevels : depthLimit ≤ depth + levels) :
    (∀ function arguments, Agree (scopes.Exactly depth)
      ((calleesWithin commands spent (Number.longLimit + calls)).call function arguments)
      ((callees commands levels).call function arguments)) ∧
    ∀ call, Agree (scopes.Exactly depth)
      ((calleesWithin commands spent (Number.longLimit + calls)).invoke call)
      ((callees commands levels).invoke call) := by
  induction calls generalizing levels scopes depth with
  | zero => exact absurd hpos (Nat.lt_irrefl 0)
  | succ calls ih =>
    rw [← Nat.add_assoc, calleesWithin_succ commands spent (Nat.le_add_right _ _)]
    by_cases hlimit : depthLimit ≤ depth
    · refine ⟨fun function arguments => ?_, fun call => ?_⟩
      · rintro world ⟨rfl, rfl⟩
        rw [run_callFunction, if_pos hlimit, callees, run_call_of_limit hlimit]
        exact keeps_refuse function world ⟨rfl, rfl⟩
      · rintro world ⟨rfl, rfl⟩
        rw [run_invokeFunction_of_limit hlimit, callees, run_invoke_of_limit hlimit]
        exact keeps_pure _ world ⟨rfl, rfl⟩
    · obtain ⟨levels, rfl⟩ : ∃ n, levels = n + 1 := ⟨levels - 1, by omega⟩
      have hinner : depth < depthLimit → CalleesAgree scopes.frames (depth + 1)
          (calleesWithin commands spent (Number.longLimit + calls)) (callees commands levels) := by
        intro hlt
        refine ⟨fun function arguments => ?_, fun call => ?_, fun stmt => ?_⟩
        · exact agree_of_exactly fun inner _ =>
            (ih levels inner _ (by omega) (by omega) (by omega)).1 function arguments
        · exact agree_of_exactly fun inner _ =>
            (ih levels inner _ (by omega) (by omega) (by omega)).2 call
        · cases calls <;> cases levels <;> exact keeps_pure ()
      exact ⟨agree_callFunction hc hinner, agree_invokeFunction hc hinner⟩

private theorem calleesAgree_within {calls : Nat} (hcalls : depthLimit < calls)
    (outer : List PropertyMap) (depth : Nat) :
    CalleesAgree outer depth (calleesWithin commands spent (Number.longLimit + calls))
      (outermost commands) := by
  have hexactly (scopes : Scopes) := exactly_calleesWithin hc spent calls depthLimit scopes depth
    (by omega) (by omega) (by omega)
  refine ⟨fun function arguments => ?_, fun call => ?_, fun stmt => ?_⟩
  · exact agree_of_exactly fun scopes _ => (hexactly scopes).1 function arguments
  · exact agree_of_exactly fun scopes _ => (hexactly scopes).2 call
  · cases calls <;> exact keeps_pure ()

omit spent in
/-- The calls that evaluation makes are those of evaluation itself: the levels that it is set up
with do not show. -/
theorem call_outermost (function : Function) (arguments : Arguments) (world : World Session) :
    ((outermost commands).call function arguments).run world =
      (callFunction commands (outermost commands) function arguments).run world :=
  (call_levels hc (Nat.le_succ depthLimit) function arguments world).symm

end

/-- A budget is enough if evaluation with it, or with any larger one, is evaluation: whatever would
be done if the budget were used up is not done. -/
structure Suffices (commands : Commands) (enough : Nat) : Prop where
  exec : ∀ (spent : Spent) (budget : Nat), enough ≤ budget →
    ∀ (stmt : Stmt) (world : World Session),
    (execWithin commands spent (calleesWithin commands spent budget) budget stmt).run world =
      (exec commands (outermost commands) stmt).run world
  update : ∀ (spent : Spent) (budget : Nat), enough ≤ budget →
    ∀ (dt : Float) (world : World Session),
    (Playback.update (calleesWithin commands spent budget).invoke dt).run world =
      (update commands dt).run world

/-- With commands that are scoped, such as the standard ones, there is a budget that is enough for
every statement, every frame and every state of a session and its scene. -/
theorem evaluation_ends : Standard.commands.Scoped ∧
    ∀ commands : Commands, commands.Scoped → ∃ enough, Suffices commands enough := by
  refine ⟨Standard.commands_scoped, fun commands hc => ?_⟩
  refine ⟨Number.longLimit + (depthLimit + 1), ⟨?_, ?_⟩⟩
  · intro spent budget hbudget stmt world
    obtain ⟨calls, rfl⟩ : ∃ n, budget = Number.longLimit + n :=
      ⟨budget - Number.longLimit, by omega⟩
    rw [execWithin_eq commands spent _ (by omega)]
    have hcallees := calleesAgree_within hc spent (show depthLimit < calls by omega)
      world.host.scopes.frames.tail world.host.depth
    exact (agree_exec hc hcallees stmt world ⟨rfl, rfl⟩).1
  · intro spent budget hbudget dt world
    obtain ⟨calls, rfl⟩ : ∃ n, budget = Number.longLimit + n :=
      ⟨budget - Number.longLimit, by omega⟩
    have hcallees := calleesAgree_within hc spent (show depthLimit < calls by omega)
      world.host.scopes.frames.tail world.host.depth
    exact (agree_update hcallees.invoke dt world ⟨rfl, rfl⟩).1

theorem suffices_standard :
    Standard.commands.Scoped ∧ ∃ enough, Suffices Standard.commands enough :=
  ⟨Standard.commands_scoped, evaluation_ends.2 Standard.commands Standard.commands_scoped⟩

end Animatic.Session
