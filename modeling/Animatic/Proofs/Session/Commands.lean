import Animatic.Proofs.Session.Agreement
import Animatic.Proofs.Session.Steps

/-!
# Commands and bindings

No standard command touches the bindings or the call depth, but for `Wait`, which does what the
waiting that it is given does.

* `Commands.Scoped`: what is asked of commands.
* `Standard.commands_scoped`: the standard commands.
-/

namespace Animatic

open Play Playback

/-- The frames of bindings, innermost first. -/
def Scopes.frames (scopes : Scopes) : List PropertyMap := scopes.locals ++ [scopes.globals]

/-- The condition that there are given frames around the innermost one, and a given call depth. -/
def Within (outer : List PropertyMap) (depth : Nat) : Condition := fun scopes d =>
  scopes.frames.tail = outer ∧ d = depth

/-- Commands that touch no binding of an outer frame and leave the call depth as it was. How they
wait does not matter to them. -/
structure Commands.Scoped (commands : Commands) : Prop where
  method : ∀ entry ∈ commands.methods, ∀ outer depth object arguments,
    Keeps (Within outer depth) (entry.2 object arguments)
  global : ∀ entry ∈ commands.globals, ∀ outer depth wait wait',
    (∀ seconds, Agree (Within outer depth) (wait seconds) (wait' seconds)) →
    ∀ arguments, Agree (Within outer depth) (entry.2 wait arguments) (entry.2 wait' arguments)
  hook : ∀ entry ∈ commands.hooks, ∀ outer depth object,
    Keeps (Within outer depth) (entry.2 object)

/-! ## Registering -/

theorem mem_associate {κ ν : Type} [DecidableEq κ] {key : κ} {value : ν} {entries : List (κ × ν)}
    {entry : κ × ν} (h : entry ∈ associate key value entries) :
    entry.2 = value ∨ entry ∈ entries := by
  induction entries with
  | nil =>
    obtain rfl := List.mem_singleton.mp h
    exact .inl rfl
  | cons first rest ih =>
    rw [associate] at h
    split at h
    · rcases List.mem_cons.mp h with rfl | h
      · exact .inl rfl
      · exact .inr (List.mem_cons_of_mem _ h)
    · rcases List.mem_cons.mp h with rfl | h
      · exact .inr List.mem_cons_self
      · exact (ih h).imp_right (List.mem_cons_of_mem _)

namespace Commands.Scoped

variable {commands : Commands}

theorem empty : Commands.Scoped .empty := ⟨by simp [Registry.empty], by simp [Registry.empty],
  by simp [Registry.empty]⟩

theorem registerMethod (h : commands.Scoped) {tag : TypeTag} {operation : Operation}
    {handler : Method} (hnew : ∀ outer depth object arguments,
      Keeps (Within outer depth) (handler object arguments)) :
    Commands.Scoped (commands.registerMethod tag operation handler) where
  method entry hmem := by
    rcases mem_associate hmem with heq | hold
    · exact heq ▸ hnew
    · exact h.method entry hold
  global := h.global
  hook := h.hook

theorem registerGlobal (h : commands.Scoped) {name : String} {handler : Global}
    (hnew : ∀ outer depth wait wait',
      (∀ seconds, Agree (Within outer depth) (wait seconds) (wait' seconds)) →
      ∀ arguments, Agree (Within outer depth) (handler wait arguments) (handler wait' arguments)) :
    Commands.Scoped (commands.registerGlobal name handler) where
  method := h.method
  global entry hmem := by
    rcases mem_associate hmem with heq | hold
    · exact heq ▸ hnew
    · exact h.global entry hold
  hook := h.hook

theorem registerHook (h : commands.Scoped) {name : String} {hook : Hook}
    (hnew : ∀ outer depth object, Keeps (Within outer depth) (hook object)) :
    Commands.Scoped (commands.registerHook name hook) where
  method := h.method
  global := h.global
  hook entry hmem := by
    rcases mem_associate hmem with heq | hold
    · exact heq ▸ hnew
    · exact h.hook entry hold

end Commands.Scoped

namespace Standard

variable {I : Condition}

private theorem keeps_scheduling : SchedulingRules fun m => Keeps I m where
  pure := keeps_pure
  bind := Agree.bind
  look _ := keeps_scene.bind fun _ => keeps_pure _
  session := keeps_session
  log := keeps_log
  logOne := keeps_logOne
  schedule _ _ := keeps_changeScene _
  scheduleAll _ _ := keeps_changeScene _

/-- No operation touches the bindings or the call depth. -/
theorem keeps_method (operation : Operation) (object : ObjectRef) (arguments : Arguments) :
    Keeps I (method operation object arguments) :=
  keeps_scheduling.method operation object arguments

/-! ## Globals -/

/-- How a global command waits is up to the waiting that it is given. -/
private abbrev Patient (I : Condition) (handler : Global) : Prop :=
  ∀ wait wait' : Float → Play Unit, (∀ seconds, Agree I (wait seconds) (wait' seconds)) →
    ∀ arguments, Agree I (handler wait arguments) (handler wait' arguments)

private theorem patient_add : Patient I add := by
  intro _ _ _ arguments
  refine (keeps_scheduling.hostsOfAll _ _).bind fun _ => (keeps_changeScene _).bind fun _ => ?_
  split <;> exact keeps_pure _

private theorem patient_removeAll : Patient I removeAll := fun _ _ _ _ =>
  (keeps_scheduling.hostsOfAll _ _).bind fun _ => (keeps_changeScene _).bind fun _ => keeps_pure _

private theorem patient_wait : Patient I wait := fun _ _ h _ =>
  (h _).bind fun _ => keeps_pure _

private theorem patient_scheduleCall : Patient I scheduleCall := by
  intro _ _ _ arguments
  refine (keeps_scheduling.scheduledFunction _).bind fun function => ?_
  cases function with
  | none => exact keeps_pure _
  | some f => exact (keeps_changeScene _).bind fun _ => keeps_pure _

private theorem patient_printLine : Patient I printLine := fun _ _ _ _ =>
  (keeps_print _).bind fun _ => keeps_pure _

private theorem patient_random : Patient I random := by
  intro _ _ _ arguments
  unfold random
  dsimp only
  split
  · exact keeps_pure _
  · split
    · exact keeps_pure _
    · refine keeps_session.bind fun _ => ?_
      exact Agree.bind (keeps_changeSession fun _ h => h) fun _ => keeps_pure _

private theorem patient_length : Patient I length := fun _ _ _ _ => keeps_pure _

private theorem patient_rgb : Patient I rgb := fun _ _ _ _ => keeps_pure _

private theorem patient_time : Patient I time := fun _ _ _ _ =>
  keeps_scene.bind fun _ => keeps_pure _

/-- No global command touches the bindings or the call depth but through waiting. -/
theorem globals_agree {entry : String × Global} (h : entry ∈ globals)
    {wait wait' : Float → Play Unit} (hwait : ∀ seconds, Agree I (wait seconds) (wait' seconds))
    (arguments : Arguments) : Agree I (entry.2 wait arguments) (entry.2 wait' arguments) := by
  revert wait wait' arguments
  change Patient I entry.2
  simp only [globals, List.mem_cons, List.not_mem_nil, or_false] at h
  rcases h with rfl | rfl | rfl | rfl | rfl | rfl | rfl | rfl | rfl | rfl
  · exact patient_add
  · exact patient_removeAll
  · exact patient_wait
  · exact patient_scheduleCall
  · exact patient_printLine
  · exact patient_printLine
  · exact patient_random
  · exact patient_length
  · exact patient_rgb
  · exact patient_time

theorem keeps_commonProperties (object : ObjectRef) : Keeps I (commonProperties object) := by
  unfold commonProperties
  split
  · exact keeps_pure _
  · exact keeps_session.bind fun _ => keeps_changeScene _

/-- The standard commands are scoped. -/
theorem commands_scoped : Commands.Scoped commands := by
  unfold commands
  refine List.foldlRecOn _ _ (List.foldlRecOn _ _ (List.foldlRecOn _ _ .empty ?_) ?_) ?_
  · exact fun registry h entry hmem => h.registerGlobal fun _ _ _ _ hwait => globals_agree hmem hwait
  · exact fun registry h entry _ => h.registerMethod fun _ _ => keeps_method entry.2
  · exact fun registry h kind _ => h.registerHook fun _ _ => keeps_commonProperties

end Standard

/-! ## Looking up -/

namespace Commands.Scoped

variable {commands : Commands}

theorem mem_of_lookup {κ ν : Type} [BEq κ] [LawfulBEq κ] {key : κ} {value : ν}
    {entries : List (κ × ν)} (h : entries.lookup key = some value) : (key, value) ∈ entries := by
  obtain ⟨front, back, rfl, -⟩ := List.lookup_eq_some_iff.mp h
  exact List.mem_append_right _ List.mem_cons_self

theorem resolve? (h : commands.Scoped) {typeName method : String} {handler : Method}
    (hfound : commands.resolve? typeName method = some handler) (outer : List PropertyMap)
    (depth : Nat) (object : ObjectRef) (arguments : Arguments) :
    Keeps (Within outer depth) (handler object arguments) := by
  simp only [Registry.resolve?, Option.bind_eq_bind, Option.bind_eq_some_iff] at hfound
  obtain ⟨kind, -, operation, -, hfound⟩ := hfound
  rcases Option.or_eq_some_iff.mp hfound with hfound | ⟨-, hfound⟩
  · exact h.method _ (mem_of_lookup hfound) outer depth object arguments
  · exact h.method _ (mem_of_lookup hfound) outer depth object arguments

theorem global? (h : commands.Scoped) {name : String} {handler : Global}
    (hfound : commands.global? name = some handler) {outer : List PropertyMap} {depth : Nat}
    {wait wait' : Float → Play Unit}
    (hwait : ∀ seconds, Agree (Within outer depth) (wait seconds) (wait' seconds))
    (arguments : Arguments) :
    Agree (Within outer depth) (handler wait arguments) (handler wait' arguments) :=
  h.global _ (mem_of_lookup hfound) outer depth wait wait' hwait arguments

theorem hook? (h : commands.Scoped) {typeName : String} {hook : Hook}
    (hfound : commands.hook? typeName = some hook) (outer : List PropertyMap) (depth : Nat)
    (object : ObjectRef) : Keeps (Within outer depth) (hook object) :=
  h.hook _ (mem_of_lookup hfound) outer depth object

end Commands.Scoped

end Animatic
