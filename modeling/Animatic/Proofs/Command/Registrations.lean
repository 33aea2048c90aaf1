import Mathlib.Data.List.Basic
import Mathlib.Data.List.Induction
import Animatic.Command.Registry

/-!
# What is registered is found

A registry answers as the plain list of the calls that filled it would: with the latest of them that
is for what is asked.

* `PrimitiveKind.ofName?_eq_some_iff`, `Operation.ofMethod?_eq_some_iff`: which names stand for a
  kind and which for an operation.
* `Registration`, `Registry.register`: calls that register handlers.
* `resolve?_register`, `global?_register`, `hook?_register`: what one call changes.
* `registerAll_answers`: what a registry that some calls have filled answers.
-/

namespace Animatic

/-! ## Names of kinds and operations -/

private theorem PrimitiveKind.eq_of_lower_name {kind other : PrimitiveKind}
    (h : Text.lower kind.name = Text.lower other.name) : kind = other := by
  cases kind <;> cases other <;> first | rfl | exact absurd h (by decide)

theorem PrimitiveKind.ofName?_eq_some_iff {typeName : String} {kind : PrimitiveKind} :
    ofName? typeName = some kind ↔ Text.sameIgnoringCase kind.name typeName = true := by
  rw [ofName?]
  constructor
  · intro h
    simpa using List.find?_some h
  · intro h
    have hmem : kind ∈ all := by cases kind <;> decide
    cases hfind : all.find? (Text.sameIgnoringCase ·.name typeName) with
    | none => exact absurd h (List.find?_eq_none.mp hfind kind hmem)
    | some other =>
      have hother : Text.sameIgnoringCase other.name typeName = true := by
        simpa using List.find?_some hfind
      rw [Text.sameIgnoringCase, beq_iff_eq] at h hother
      rw [eq_of_lower_name (hother.trans h.symm)]

namespace Operation

/-- A method name stands for an operation if, but for its case, it is a name of the operation, or
such a name behind an `a`. -/
def Spelled (operation : Operation) (method : String) : Prop :=
  ∃ name, (name, operation) ∈ names ∧
    (Text.lower method = name ∨ Text.lower method = "a" ++ name)

private theorem ofLowerName?_eq_some_iff {name : String} {operation : Operation} :
    ofLowerName? name = some operation ↔ (name, operation) ∈ names := by
  constructor
  · intro h
    obtain ⟨before, after, heq, -⟩ := List.lookup_eq_some_iff.mp h
    rw [heq]
    exact List.mem_append_right _ List.mem_cons_self
  · have hall : ∀ entry ∈ names, ofLowerName? entry.1 = some entry.2 := by decide
    exact hall (name, operation)

/-- No name of an operation begins like an animated form. -/
private theorem ofLowerName?_animated (rest : String) : ofLowerName? ("a" ++ rest) = none := by
  rw [Option.eq_none_iff_forall_ne_some]
  intro operation h
  have hall : ∀ entry ∈ names, entry.1.toList.head? ≠ some 'a' := by decide
  exact hall _ (ofLowerName?_eq_some_iff.mp h) (by rw [String.toList_append]; rfl)

theorem ofMethod?_eq_some_iff {method : String} {operation : Operation} :
    ofMethod? method = some operation ↔ operation.Spelled method := by
  rw [ofMethod?, Option.or_eq_some_iff]
  constructor
  · rintro (h | ⟨-, h⟩)
    · exact ⟨_, ofLowerName?_eq_some_iff.mp h, .inl rfl⟩
    · split at h
      · rename_i rest hlower
        refine ⟨_, ofLowerName?_eq_some_iff.mp h, .inr ?_⟩
        have hrest : (String.ofList rest).toList = rest := String.toList_ofList
        rw [← String.toList_inj, hlower, String.toList_append, hrest]
        rfl
      · cases h
  · rintro ⟨name, hmem, hlower | hlower⟩
    · exact .inl (hlower ▸ ofLowerName?_eq_some_iff.mpr hmem)
    · have hlist : (Text.lower method).toList = 'a' :: name.toList := by
        rw [hlower, String.toList_append]
        rfl
      refine .inr ⟨hlower ▸ ofLowerName?_animated name, ?_⟩
      rw [hlist]
      simp only [String.ofList_toList]
      exact ofLowerName?_eq_some_iff.mpr hmem

end Operation

/-! ## Calls that register handlers -/

/-- A call that registers a handler. -/
inductive Registration (Method Global Hook : Type) where
  | method (tag : TypeTag) (operation : Operation) (handler : Method)
  | global (name : String) (handler : Global)
  | hook (typeName : String) (hook : Hook)

variable {Method Global Hook : Type}

namespace Registration

/-- The handler that a call registers for an operation on exactly what is given. -/
def method? (tag : TypeTag) (operation : Operation) :
    Registration Method Global Hook → Option Method
  | method given named handler => if given = tag ∧ named = operation then some handler else none
  | _ => none

/-- The handler that a call registers for a global command, whatever the case of its name. -/
def global? (name : String) : Registration Method Global Hook → Option Global
  | global given handler => if Text.sameIgnoringCase given name then some handler else none
  | _ => none

/-- What a call registers for new objects of a type, whatever the case of its name. -/
def hook? (typeName : String) : Registration Method Global Hook → Option Hook
  | hook given handler => if Text.sameIgnoringCase given typeName then some handler else none
  | _ => none

/-- What the latest of some calls registers among those that register anything of a sort. -/
def latest? {α : Type} (sort : Registration Method Global Hook → Option α)
    (calls : List (Registration Method Global Hook)) : Option α :=
  calls.reverse.findSome? sort

theorem latest?_concat {α : Type} (sort : Registration Method Global Hook → Option α)
    (calls : List (Registration Method Global Hook)) (call : Registration Method Global Hook) :
    latest? sort (calls ++ [call]) = (sort call).or (latest? sort calls) := by
  rw [latest?, List.reverse_concat, List.findSome?_cons, latest?]
  cases sort call <;> rfl

theorem eq_of_method? {tag : TypeTag} {operation : Operation} {handler : Method}
    {call : Registration Method Global Hook} (h : call.method? tag operation = some handler) :
    call = .method tag operation handler := by
  cases call with
  | method given named other =>
    rw [method?, Option.ite_none_right_eq_some] at h
    obtain ⟨⟨rfl, rfl⟩, h⟩ := h
    rw [Option.some.inj h]
  | global => cases h
  | hook => cases h

theorem eq_of_global? {name : String} {handler : Global} {call : Registration Method Global Hook}
    (h : call.global? name = some handler) :
    ∃ given, call = .global given handler ∧ Text.sameIgnoringCase given name = true := by
  cases call with
  | global given other =>
    rw [global?, Option.ite_none_right_eq_some] at h
    exact ⟨given, by rw [Option.some.inj h.2], h.1⟩
  | method => cases h
  | hook => cases h

theorem eq_of_hook? {typeName : String} {hook : Hook} {call : Registration Method Global Hook}
    (h : call.hook? typeName = some hook) :
    ∃ given, call = .hook given hook ∧ Text.sameIgnoringCase given typeName = true := by
  cases call with
  | hook given other =>
    rw [hook?, Option.ite_none_right_eq_some] at h
    exact ⟨given, by rw [Option.some.inj h.2], h.1⟩
  | method => cases h
  | global => cases h

end Registration

namespace Registry

/-- A registry after a call. -/
def register (registry : Registry Method Global Hook) :
    Registration Method Global Hook → Registry Method Global Hook
  | .method tag operation handler => registry.registerMethod tag operation handler
  | .global name handler => registry.registerGlobal name handler
  | .hook typeName hook => registry.registerHook typeName hook

/-- The registry that some calls fill, one after the other. -/
def registerAll (calls : List (Registration Method Global Hook)) :
    Registry Method Global Hook :=
  calls.foldl register empty

/-! ## One call -/

private theorem lookup_cons_eq {κ ν : Type} [DecidableEq κ] [BEq κ] [LawfulBEq κ]
    (key other : κ) (value : ν) (entries : List (κ × ν)) :
    ((key, value) :: entries).lookup other =
      if key = other then some value else entries.lookup other := by
  rw [List.lookup_cons]
  by_cases h : key = other
  · rw [if_pos h, h, beq_self_eq_true]
  · rw [if_neg h, beq_eq_false_iff_ne.mpr (Ne.symm h)]

theorem lookup_associate {κ ν : Type} [DecidableEq κ] [BEq κ] [LawfulBEq κ] (key other : κ)
    (value : ν) (entries : List (κ × ν)) :
    (associate key value entries).lookup other =
      if key = other then some value else entries.lookup other := by
  induction entries with
  | nil => exact lookup_cons_eq key other value []
  | cons entry rest ih =>
    obtain ⟨present, old⟩ := entry
    rw [associate, lookup_cons_eq]
    by_cases hpresent : present = key
    · rw [if_pos hpresent, lookup_cons_eq, hpresent]
      split <;> rfl
    · rw [if_neg hpresent, lookup_cons_eq, ih]
      by_cases h : present = other
      · rw [if_pos h, if_pos h, if_neg fun hkey => hpresent (h.trans hkey.symm)]
      · rw [if_neg h, if_neg h]

variable (registry : Registry Method Global Hook) (call : Registration Method Global Hook)

theorem lookup_register (tag : TypeTag) (operation : Operation) :
    (registry.register call).methods.lookup (tag, operation) =
      (call.method? tag operation).or (registry.methods.lookup (tag, operation)) := by
  cases call with
  | method given named handler =>
    rw [register, registerMethod, lookup_associate, Registration.method?]
    simp only [Prod.mk.injEq]
    split <;> rfl
  | global => rfl
  | hook => rfl

theorem global?_register (name : String) :
    (registry.register call).global? name = (call.global? name).or (registry.global? name) := by
  cases call with
  | global given handler =>
    rw [register, registerGlobal, global?, lookup_associate, Registration.global?,
      Text.sameIgnoringCase]
    simp only [beq_iff_eq]
    split <;> rfl
  | method => rfl
  | hook => rfl

theorem hook?_register (typeName : String) :
    (registry.register call).hook? typeName =
      (call.hook? typeName).or (registry.hook? typeName) := by
  cases call with
  | hook given handler =>
    rw [register, registerHook, hook?, lookup_associate, Registration.hook?,
      Text.sameIgnoringCase]
    simp only [beq_iff_eq]
    split <;> rfl
  | method => rfl
  | global => rfl

/-- A method resolves if its type and its name stand for a kind and an operation, and then to the
handler for exactly this kind, or else to the one for any. -/
theorem resolve?_eq {kind : PrimitiveKind} {operation : Operation} {typeName method : String}
    (hkind : Text.sameIgnoringCase kind.name typeName = true) (hmethod : operation.Spelled method) :
    registry.resolve? typeName method =
      (registry.methods.lookup (.kind kind, operation)).or
        (registry.methods.lookup (.any, operation)) := by
  rw [resolve?, PrimitiveKind.ofName?_eq_some_iff.mpr hkind,
    Operation.ofMethod?_eq_some_iff.mpr hmethod]
  rfl

theorem exists_of_resolve?_ne_none {typeName method : String}
    (h : registry.resolve? typeName method ≠ none) :
    ∃ (kind : PrimitiveKind) (operation : Operation),
      Text.sameIgnoringCase kind.name typeName = true ∧ operation.Spelled method := by
  obtain ⟨handler, hresolve⟩ := Option.ne_none_iff_exists'.mp h
  rw [resolve?, Option.bind_eq_bind, Option.bind_eq_some_iff] at hresolve
  obtain ⟨kind, hkind, hresolve⟩ := hresolve
  rw [Option.bind_eq_bind, Option.bind_eq_some_iff] at hresolve
  obtain ⟨operation, hoperation, -⟩ := hresolve
  exact ⟨kind, operation, PrimitiveKind.ofName?_eq_some_iff.mp hkind,
    Operation.ofMethod?_eq_some_iff.mp hoperation⟩

variable {registry call} in
/-- A call that changes what a method resolves to is for its operation, on its kind or on any. -/
theorem resolve?_register_ne {typeName method : String}
    (h : (registry.register call).resolve? typeName method ≠ registry.resolve? typeName method) :
    ∃ (kind : PrimitiveKind) (operation : Operation) (handler : Method),
      Text.sameIgnoringCase kind.name typeName = true ∧ operation.Spelled method ∧
      (call = .method (.kind kind) operation handler ∨
        call = .method .any operation handler ∧
          registry.methods.lookup (.kind kind, operation) = none) := by
  obtain ⟨kind, operation, hkind, hmethod⟩ : ∃ (kind : PrimitiveKind) (operation : Operation),
      Text.sameIgnoringCase kind.name typeName = true ∧ operation.Spelled method := by
    by_cases hold : registry.resolve? typeName method = none
    · exact exists_of_resolve?_ne_none _ (hold ▸ h)
    · exact exists_of_resolve?_ne_none _ hold
  rw [resolve?_eq _ hkind hmethod, resolve?_eq _ hkind hmethod, lookup_register,
    lookup_register] at h
  cases hown : call.method? (.kind kind) operation with
  | some handler =>
    exact ⟨kind, operation, handler, hkind, hmethod, .inl (Registration.eq_of_method? hown)⟩
  | none =>
    rw [hown, Option.none_or] at h
    -- the kind has no handler of its own, or that one would answer before and after
    cases hold : registry.methods.lookup (.kind kind, operation) with
    | some handler => exact absurd (by rw [hold]; rfl) h
    | none =>
      rw [hold, Option.none_or, Option.none_or] at h
      cases hany : call.method? .any operation with
      | none => exact absurd (by rw [hany]; rfl) h
      | some handler =>
        exact ⟨kind, operation, handler, hkind, hmethod,
          .inr ⟨Registration.eq_of_method? hany, hold⟩⟩

variable {registry call} in
theorem global?_register_ne {name : String}
    (h : (registry.register call).global? name ≠ registry.global? name) :
    ∃ given handler, call = .global given handler ∧ Text.sameIgnoringCase given name = true := by
  rw [global?_register] at h
  cases hcall : call.global? name with
  | none => exact absurd (by rw [hcall]; rfl) h
  | some handler =>
    obtain ⟨given, heq, hsame⟩ := Registration.eq_of_global? hcall
    exact ⟨given, handler, heq, hsame⟩

variable {registry call} in
theorem hook?_register_ne {typeName : String}
    (h : (registry.register call).hook? typeName ≠ registry.hook? typeName) :
    ∃ given hook, call = .hook given hook ∧ Text.sameIgnoringCase given typeName = true := by
  rw [hook?_register] at h
  cases hcall : call.hook? typeName with
  | none => exact absurd (by rw [hcall]; rfl) h
  | some hook =>
    obtain ⟨given, heq, hsame⟩ := Registration.eq_of_hook? hcall
    exact ⟨given, hook, heq, hsame⟩

/-! ## All calls -/

variable (calls : List (Registration Method Global Hook))

theorem registerAll_concat :
    registerAll (calls ++ [call]) = (registerAll calls).register call := by
  rw [registerAll, List.foldl_concat, registerAll]

theorem lookup_registerAll (tag : TypeTag) (operation : Operation) :
    (registerAll calls).methods.lookup (tag, operation) =
      Registration.latest? (·.method? tag operation) calls := by
  induction calls using List.reverseRecOn with
  | nil => rfl
  | append_singleton calls call ih =>
    rw [registerAll_concat, lookup_register, ih, Registration.latest?_concat]

theorem global?_registerAll (name : String) :
    (registerAll calls).global? name = Registration.latest? (·.global? name) calls := by
  induction calls using List.reverseRecOn with
  | nil => rfl
  | append_singleton calls call ih =>
    rw [registerAll_concat, global?_register, ih, Registration.latest?_concat]

theorem hook?_registerAll (typeName : String) :
    (registerAll calls).hook? typeName = Registration.latest? (·.hook? typeName) calls := by
  induction calls using List.reverseRecOn with
  | nil => rfl
  | append_singleton calls call ih =>
    rw [registerAll_concat, hook?_register, ih, Registration.latest?_concat]

open Registration in
/-- A registry that some calls have filled, whatever they are and however they spell names:

* A method that stands for an operation on a type that stands for a kind resolves to the latest
  handler for exactly these, or else to the latest one for the operation on any kind. Nothing else
  resolves.
* For a global command and for new objects of a type there is what the latest call with such a name
  has registered, whatever its case.
* One more call changes only what methods of its operation resolve to on its kind, or, if it is for
  any, on the kinds without a handler of their own; and only what there is under its own name. -/
theorem registerAll_answers (calls : List (Registration Method Global Hook)) :
    (∀ (kind : PrimitiveKind) (operation : Operation) (typeName method : String),
      Text.sameIgnoringCase kind.name typeName = true → operation.Spelled method →
      (registerAll calls).resolve? typeName method =
        (latest? (·.method? (.kind kind) operation) calls).or
          (latest? (·.method? .any operation) calls)) ∧
    (∀ typeName method, (registerAll calls).resolve? typeName method ≠ none →
      ∃ (kind : PrimitiveKind) (operation : Operation),
        Text.sameIgnoringCase kind.name typeName = true ∧ operation.Spelled method) ∧
    (∀ name, (registerAll calls).global? name = latest? (·.global? name) calls) ∧
    (∀ typeName, (registerAll calls).hook? typeName = latest? (·.hook? typeName) calls) ∧
    ∀ call : Registration Method Global Hook,
      (∀ typeName method,
        (registerAll (calls ++ [call])).resolve? typeName method ≠
          (registerAll calls).resolve? typeName method →
        ∃ (kind : PrimitiveKind) (operation : Operation) (handler : Method),
          Text.sameIgnoringCase kind.name typeName = true ∧ operation.Spelled method ∧
          (call = .method (.kind kind) operation handler ∨
            call = .method .any operation handler ∧
              latest? (·.method? (.kind kind) operation) calls = none)) ∧
      (∀ name,
        (registerAll (calls ++ [call])).global? name ≠ (registerAll calls).global? name →
        ∃ given handler, call = .global given handler ∧ Text.sameIgnoringCase given name = true) ∧
      ∀ typeName,
        (registerAll (calls ++ [call])).hook? typeName ≠ (registerAll calls).hook? typeName →
        ∃ given hook, call = .hook given hook ∧ Text.sameIgnoringCase given typeName = true := by
  refine ⟨fun kind operation typeName method hkind hmethod => ?_,
    fun typeName method => exists_of_resolve?_ne_none _, global?_registerAll calls,
    hook?_registerAll calls, fun call => ⟨?_, ?_, ?_⟩⟩
  · rw [resolve?_eq _ hkind hmethod, lookup_registerAll, lookup_registerAll]
  · intro typeName method h
    rw [registerAll_concat] at h
    simpa only [lookup_registerAll] using resolve?_register_ne h
  · intro name h
    rw [registerAll_concat] at h
    exact global?_register_ne h
  · intro typeName h
    rw [registerAll_concat] at h
    exact hook?_register_ne h

/-- Calls with handlers for any kind around one for rectangles, and with one name in two cases. -/
def mixedCalls : List (Registration Nat Nat Nat) :=
  [.method .any .move 1, .method (.kind .rect) .move 2, .method .any .move 3, .global "Add" 4,
    .global "aDD" 5, .hook "Rect" 6]

theorem registerAll_answers_mixedCalls :
    Operation.Spelled .move "aMove" ∧
      (registerAll mixedCalls).resolve? "RECT" "aMove" = some 2 ∧
      (registerAll mixedCalls).resolve? "circle" "aMove" = some 3 ∧
      (registerAll mixedCalls).global? "add" = some 5 ∧
      (registerAll mixedCalls).hook? "rect" = some 6 := by
  have hspelled : Operation.Spelled .move "aMove" := ⟨"move", by decide, by decide⟩
  obtain ⟨hresolve, -, hglobal, hhook, -⟩ := registerAll_answers mixedCalls
  refine ⟨hspelled, ?_, ?_, ?_, ?_⟩
  · exact (hresolve .rect .move "RECT" "aMove" (by decide) hspelled).trans (by decide)
  · exact (hresolve .circle .move "circle" "aMove" (by decide) hspelled).trans (by decide)
  · exact (hglobal "add").trans (by decide)
  · exact (hhook "rect").trans (by decide)

end Registry

end Animatic
