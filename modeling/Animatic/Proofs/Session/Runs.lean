import Animatic.Proofs.Session.Scoping

/-!
# Runs of a session

What a script does to the bindings and to the call depth, in every run of a session.

* `evaluation_scoped`: calls leave the bindings and the depth as they were, statements bind in the
  innermost frame only, and wherever a statement runs there is one frame more than calls that run,
  of which there are not too many.
* `call_levels`: the number of levels with which evaluation is set up does not show.
-/

namespace Animatic.Session

open Script Play Playback

/-! ## What is asked of a session -/

/-- What is asked of a session and its scene from outside. -/
inductive Request where
  | run (statements : List Stmt)
  | exec (stmt : Stmt)
  | eval (e : Expr)
  | call (function : Function) (arguments : Arguments)
  | invoke (invocation : Invocation)
  | callMethod (object : ObjectRef) (method : String) (arguments : Arguments)
  | construct (typeName : String) (arguments : Arguments) (properties : PropertyMap)
  | wait (seconds : Float)
  | update (dt : Float)
  | advanceClock (seconds : Float)
  | apply (effect : Effect)
  /-- Any other use of the scene, such as ending the recording. -/
  | changeScene (change : Scene → Scene)

/-- Does what is asked, with given calls. -/
def Request.perform (commands : Commands) (callees : Callees) : Request → Play Unit
  | .run statements => runAll commands callees statements
  | .exec stmt => discard (Session.exec commands callees stmt)
  | .eval e => discard (Session.eval commands callees e)
  | .call function arguments => discard (callees.call function arguments)
  | .invoke invocation => discard (callees.invoke invocation)
  | .callMethod object method arguments =>
    discard (Session.callMethod commands object method arguments)
  | .construct typeName arguments properties =>
    discard (Session.construct commands typeName arguments properties)
  | .wait seconds => Session.wait callees.invoke seconds
  | .update dt => Playback.update callees.invoke dt
  | .advanceClock seconds => discard (Playback.advanceClock callees.invoke seconds)
  | .apply effect => discard (Playback.apply callees.invoke effect)
  | .changeScene change => Playback.changeScene change

/-- Does what is asked, one thing after the other. -/
def serve (commands : Commands) (callees : Callees) : List Request → Play Unit
  | [] => return ()
  | request :: rest => do
    request.perform commands callees
    serve commands callees rest

/-! ## Statements that run in a wrong place -/

/-- There is one frame more than calls that run, and there are no more calls than may be nested. -/
def Balanced (session : Session) : Prop :=
  session.scopes.depth = session.depth + 1 ∧ session.depth ≤ depthLimit

instance (session : Session) : Decidable session.Balanced := by
  unfold Balanced
  infer_instance

/-- Does something in front of every statement that runs where frames and calls are not balanced. -/
def alarm (act : Stmt → Play Unit) (stmt : Stmt) : Play Unit := do
  if (← session).Balanced then return () else act stmt

/-! ## Every run -/

section

variable {commands : Commands} (hc : commands.Scoped) {outer : List PropertyMap} {depth : Nat}
  {c c' : Callees} (h : CalleesAgree outer depth c c')

include hc h

private theorem agree_perform (request : Request) :
    Agree (Within outer depth) (request.perform commands c) (request.perform commands c') := by
  cases request with
  | run statements => exact agree_runAll hc h statements
  | exec stmt => exact (agree_exec hc h stmt).map _
  | eval e => exact (agree_eval hc h e).map _
  | call function arguments => exact (h.call function arguments).map _
  | invoke invocation => exact (h.invoke invocation).map _
  | callMethod object method arguments => exact (keeps_callMethod hc object method arguments).map _
  | construct typeName arguments properties =>
    exact (keeps_construct hc typeName arguments properties).map _
  | wait seconds => exact agree_wait h seconds
  | update dt => exact agree_update h.invoke dt
  | advanceClock seconds => exact (agree_advanceClock h.invoke seconds).map _
  | apply effect => exact (agree_apply h.invoke effect).map _
  | changeScene change => exact keeps_changeScene change

theorem agree_serve (requests : List Request) :
    Agree (Within outer depth) (serve commands c requests) (serve commands c' requests) := by
  induction requests with
  | nil => exact keeps_pure _
  | cons request rest ih => exact (agree_perform hc h request).bind fun _ => ih

end

/-- Within balanced frames no alarm goes off. -/
private theorem agree_alarm {outer : List PropertyMap} {depth : Nat} (act : Stmt → Play Unit)
    (hlength : outer.length = depth) (hdepth : depth ≤ depthLimit) (stmt : Stmt) :
    Agree (Within outer depth) (alarm act stmt) (return ()) := by
  rintro world ⟨hframes, rfl⟩
  have hbalanced : world.host.Balanced := by
    refine ⟨?_, hdepth⟩
    have hlen := congrArg List.length hframes
    simp only [Scopes.frames, List.length_tail, List.length_append, List.length_singleton] at hlen
    rw [Scopes.depth]
    omega
  have hrun : (alarm act stmt).run world = .ok ((), world) := by
    change StateT.run (if world.host.Balanced then _ else _) world = _
    rw [if_pos hbalanced]
    rfl
  refine ⟨hrun, fun _ next h => ?_⟩
  rw [hrun] at h
  obtain ⟨-, rfl⟩ := Prod.mk.inj (Except.ok.inj h)
  exact ⟨hframes, rfl⟩

private theorem inward_balanced :
    Inward fun outer depth => outer.length = depth ∧ depth ≤ depthLimit := by
  rintro frames depth hne ⟨hlength, -⟩ hlt
  rw [List.length_tail] at hlength
  have hpos := List.length_pos_iff.mpr hne
  exact ⟨by omega, by omega⟩

/-- What evaluation with some commands does to the bindings and the call depth. -/
structure KeepsScopes (commands : Commands) : Prop where
  /-- A call leaves every frame with its bindings and the depth as they were. -/
  call : ∀ (world next : World Session) (function : Function) (arguments : Arguments)
    (value : Value), ((outermost commands).call function arguments).run world = .ok (value, next) →
    next.host.scopes = world.host.scopes ∧ next.host.depth = world.host.depth
  /-- A statement changes bindings in the frame that was innermost, and in no other. -/
  exec : ∀ (world next : World Session) (stmt : Stmt) (flow : Flow),
    (exec commands (outermost commands) stmt).run world = .ok (flow, next) →
    next.host.scopes.frames.tail = world.host.scopes.frames.tail ∧
      next.host.depth = world.host.depth
  /-- Wherever a statement runs, frames and calls are balanced: whatever an alarm would do, no run
  of a fresh session shows it. -/
  balanced : ∀ (settings : Settings) (scene : Scene) (entries : Array LogEntry)
    (requests : List Request) (act : Stmt → Play Unit),
    let fresh : World Session := ⟨scene, .ofSettings settings, entries⟩
    (serve commands (watchedCallees commands (alarm act) depthLimit) requests).run fresh =
      (serve commands (outermost commands) requests).run fresh

private theorem inward_true : Inward fun _ _ => True := fun _ _ _ _ _ => trivial

private theorem agree_unwatched (outer : List PropertyMap) (depth : Nat)
    (_ : (fun _ _ => True : List PropertyMap → Nat → Prop) outer depth) (stmt : Stmt) :
    Agree (Within outer depth) ((fun _ => return () : Stmt → Play Unit) stmt) (return ()) :=
  keeps_pure ()

/-- However many levels evaluation is set up with, a call does the same if there are enough. -/
theorem call_levels {commands : Commands} (hc : commands.Scoped) {levels : Nat}
    (h : depthLimit ≤ levels) (function : Function) (arguments : Arguments)
    (world : World Session) :
    ((callees commands levels).call function arguments).run world =
      ((outermost commands).call function arguments).run world := by
  have hlevels := exactly_watchedCallees hc inward_true agree_unwatched levels depthLimit
    world.host.scopes world.host.depth (by omega) (Nat.le_add_left _ _) trivial
  exact (hlevels.1 function arguments world ⟨rfl, rfl⟩).1

/-- With commands that are scoped, such as the standard ones, evaluation keeps the scopes. -/
theorem evaluation_scoped :
    Standard.commands.Scoped ∧ ∀ commands : Commands, commands.Scoped → KeepsScopes commands := by
  refine ⟨Standard.commands_scoped, fun commands hc => ⟨?_, ?_, ?_⟩⟩
  · intro world next function arguments value hrun
    have hlevels := exactly_watchedCallees hc inward_true agree_unwatched depthLimit depthLimit
      world.host.scopes world.host.depth (Nat.le_add_left _ _) (Nat.le_add_left _ _) trivial
    exact (hlevels.1 function arguments world ⟨rfl, rfl⟩).2 value next hrun
  · intro world next stmt flow hrun
    have hcallees : CalleesAgree world.host.scopes.frames.tail world.host.depth
        (outermost commands) (outermost commands) :=
      calleesAgree_watched hc inward_true agree_unwatched
        (Nat.le_add_left depthLimit world.host.depth) (Nat.le_add_left depthLimit world.host.depth)
        trivial
    exact (agree_exec hc hcallees stmt world ⟨rfl, rfl⟩).2 flow next hrun
  · intro settings scene entries requests act
    have hcallees : CalleesAgree [] 0 (watchedCallees commands (alarm act) depthLimit)
        (outermost commands) :=
      calleesAgree_watched hc inward_balanced (fun outer depth hp => agree_alarm act hp.1 hp.2)
        (Nat.le_add_left depthLimit 0) (Nat.le_add_left depthLimit 0) ⟨rfl, Nat.zero_le _⟩
    exact (agree_serve hc hcallees requests ⟨scene, .ofSettings settings, entries⟩ ⟨rfl, rfl⟩).1

theorem keepsScopes_standard : Standard.commands.Scoped ∧ KeepsScopes Standard.commands :=
  ⟨Standard.commands_scoped, evaluation_scoped.2 Standard.commands Standard.commands_scoped⟩

end Animatic.Session
