import Animatic.Proofs.Session.Scoping
import Animatic.Proofs.Value.Properties

/-!
# Parameters

The parameters of a call take the positional arguments, and then named ones. A named argument leaves
its place to the last one when it is taken, so that of several arguments of one name not always the
first one is taken.

* `Session.NamedValue`: what a parameter gets from the named arguments.
* `Session.callFunction_binds`: the frame in which the body of a function starts.
-/

namespace Animatic.Session

open Script Play Playback

variable {names earlier : List String} {name other : String} {value : Value}
  {positional : List Value} {named front back : List (String × Value)}

/-! ## Taking a named argument -/

private theorem swapRemove_last {α : Type} (front : List α) (item : α) :
    swapRemove (front ++ [item]) front.length = front := by
  rw [swapRemove, List.getLast?_concat]
  dsimp only
  rw [List.set_append_right _ _ (Nat.le_refl _), Nat.sub_self, List.set_cons_zero,
    List.dropLast_concat]

private theorem swapRemove_inner {α : Type} (front back : List α) (item last : α) :
    swapRemove (front ++ item :: (back ++ [last])) front.length = front ++ last :: back := by
  have hlast : (front ++ item :: (back ++ [last])).getLast? = some last := by
    rw [← List.cons_append, ← List.append_assoc, List.getLast?_concat]
  rw [swapRemove, hlast]
  dsimp only
  rw [List.set_append_right _ _ (Nat.le_refl _), Nat.sub_self, List.set_cons_zero,
    ← List.cons_append, ← List.append_assoc, List.dropLast_concat]

/-- What is left is everything but the item that is taken. -/
private theorem swapRemove_perm {α : Type} (front back : List α) (item : α) :
    (front ++ item :: back).Perm (item :: swapRemove (front ++ item :: back) front.length) := by
  rcases List.eq_nil_or_concat back with rfl | ⟨back, last, rfl⟩
  · rw [swapRemove_last]
    exact List.perm_append_singleton item front
  · rw [List.concat_eq_append, swapRemove_inner]
    exact List.perm_middle.trans
      (((List.perm_append_singleton last back).append_left front).cons item)

/-- What stands in front of the item that is taken stays in front. -/
private theorem swapRemove_append {α : Type} (front middle back : List α) (item : α) :
    ∃ rest, swapRemove (front ++ (middle ++ item :: back)) (front ++ middle).length =
      front ++ rest := by
  rw [← List.append_assoc]
  rcases List.eq_nil_or_concat back with rfl | ⟨back, last, rfl⟩
  · exact ⟨middle, swapRemove_last _ _⟩
  · rw [List.concat_eq_append, swapRemove_inner, List.append_assoc]
    exact ⟨_, rfl⟩

private theorem takeNamed_none (h : ∀ entry ∈ named, entry.1 ≠ name) :
    takeNamed name named = (.null, named) := by
  have hindex : named.findIdx? (·.1 == name) = none :=
    List.findIdx?_eq_none_iff.mpr fun entry hmem => beq_eq_false_iff_ne.mpr (h entry hmem)
  rw [takeNamed, hindex]

private theorem takeNamed_first (h : ∀ entry ∈ front, entry.1 ≠ name) :
    takeNamed name (front ++ (name, value) :: back) =
      (value, swapRemove (front ++ (name, value) :: back) front.length) := by
  have hindex : (front ++ (name, value) :: back).findIdx? (·.1 == name) = some front.length := by
    have hfront : front.findIdx? (·.1 == name) = none :=
      List.findIdx?_eq_none_iff.mpr fun entry hmem => beq_eq_false_iff_ne.mpr (h entry hmem)
    rw [List.findIdx?_append, hfront, List.findIdx?_cons, if_pos (beq_self_eq_true name)]
    simp
  rw [takeNamed, hindex]
  dsimp only
  rw [List.getElem?_append_right (Nat.le_refl _), Nat.sub_self]
  rfl

/-- Named arguments are without a name, or there is a first one of that name. -/
private theorem absent_or_first (name : String) (named : List (String × Value)) :
    (∀ entry ∈ named, entry.1 ≠ name) ∨
      ∃ front value back, named = front ++ (name, value) :: back ∧
        ∀ entry ∈ front, entry.1 ≠ name := by
  induction named with
  | nil => exact .inl nofun
  | cons entry rest ih =>
    by_cases hentry : entry.1 = name
    · exact .inr ⟨[], entry.2, rest, hentry ▸ rfl, nofun⟩
    rcases ih with h | ⟨front, value, back, rfl, h⟩
    · exact .inl (List.forall_mem_cons.mpr ⟨hentry, h⟩)
    · exact .inr ⟨entry :: front, value, back, rfl, List.forall_mem_cons.mpr ⟨hentry, h⟩⟩

/-- Taking an argument of another name keeps those of a name. -/
private theorem filter_takeNamed (hne : other ≠ name) (named : List (String × Value)) :
    ((takeNamed other named).2.filter (·.1 == name)).Perm (named.filter (·.1 == name)) := by
  rcases absent_or_first other named with h | ⟨front, value, back, rfl, h⟩
  · rw [takeNamed_none h]
  · rw [takeNamed_first h]
    have hperm := (swapRemove_perm front back (other, value)).filter (·.1 == name)
    rw [List.filter_cons_of_neg (by simpa using hne)] at hperm
    exact hperm.symm

/-- What stands in front of all arguments of the name that is taken stays in front. -/
private theorem takeNamed_append (h : ∀ entry ∈ front, entry.1 ≠ name)
    (back : List (String × Value)) :
    ∃ rest, (takeNamed name (front ++ back)).2 = front ++ rest := by
  rcases absent_or_first name back with hback | ⟨middle, value, back, rfl, hmiddle⟩
  · rw [takeNamed_none (List.forall_mem_append.mpr ⟨h, hback⟩)]
    exact ⟨back, rfl⟩
  · obtain ⟨rest, hrest⟩ := swapRemove_append front middle back (name, value)
    refine ⟨rest, ?_⟩
    rw [← List.append_assoc, takeNamed_first (List.forall_mem_append.mpr ⟨h, hmiddle⟩),
      List.append_assoc]
    exact hrest

/-! ## What a parameter gets -/

/-- The value of the first argument of a name, or null. -/
def firstNamed (name : String) (named : List (String × Value)) : Value :=
  ((named.find? (·.1 == name)).map (·.2)).getD .null

/-- Taking the arguments of the `earlier` names leaves the first argument of a name in front of the
others of that name: there is no other one, or none of an earlier name in front of it. -/
def Settled (named : List (String × Value)) (earlier : List String) (name : String) : Prop :=
  (named.filter (·.1 == name)).length ≤ 1 ∨
    ∀ entry ∈ named.takeWhile (·.1 != name), entry.1 ∉ earlier

/-- What a parameter gets from the named arguments, where the `earlier` parameters are served first:
an argument of its name if there is one and null if not, and the first one if that is settled. -/
structure NamedValue (named : List (String × Value)) (earlier : List String) (name : String)
    (value : Value) : Prop where
  given : (∃ entry ∈ named, entry.1 = name) → (name, value) ∈ named
  absent : (∀ entry ∈ named, entry.1 ≠ name) → value = .null
  first : Settled named earlier name → value = firstNamed name named

private theorem find?_append_first (h : ∀ entry ∈ front, entry.1 ≠ name) :
    (front ++ (name, value) :: back).find? (·.1 == name) = some (name, value) := by
  have hfront : front.find? (·.1 == name) = none :=
    List.find?_eq_none.mpr fun entry hmem => by simpa using h entry hmem
  rw [List.find?_append, hfront, List.find?_cons_of_pos (by simp)]
  rfl

/-- The parameter that is served first gets the first argument of its name. -/
private theorem namedValue_takeNamed (name : String) (named : List (String × Value)) :
    NamedValue named [] name (takeNamed name named).1 := by
  rcases absent_or_first name named with h | ⟨front, value, back, rfl, h⟩
  · have hfind : named.find? (·.1 == name) = none :=
      List.find?_eq_none.mpr fun entry hmem => by simpa using h entry hmem
    rw [takeNamed_none h]
    refine ⟨fun ⟨entry, hmem, hentry⟩ => absurd hentry (h entry hmem), fun _ => rfl, fun _ => ?_⟩
    rw [firstNamed, hfind]
    rfl
  · have hmem : (name, value) ∈ front ++ (name, value) :: back :=
      List.mem_append_right _ List.mem_cons_self
    rw [takeNamed_first h]
    refine ⟨fun _ => hmem, fun habsent => absurd rfl (habsent _ hmem), fun _ => ?_⟩
    rw [firstNamed, find?_append_first h]
    rfl

private theorem eq_of_perm_of_length_le_one {α : Type} {items items' : List α}
    (h : items.Perm items') (hlength : items'.length ≤ 1) : items = items' :=
  match items', hlength with
  | [], _ => List.perm_nil.mp h
  | [_], _ => List.perm_singleton.mp h

/-- Serving a parameter leaves settled which argument a later one gets. -/
private theorem Settled.later (h : Settled named (other :: earlier) name) (hne : other ≠ name) :
    Settled (takeNamed other named).2 earlier name ∧
      firstNamed name (takeNamed other named).2 = firstNamed name named := by
  have hfilter := filter_takeNamed hne named
  rcases h with hsingle | hfront
  · have hsame : (takeNamed other named).2.filter (·.1 == name) = named.filter (·.1 == name) :=
      eq_of_perm_of_length_le_one hfilter hsingle
    refine ⟨.inl (hsame ▸ hsingle), ?_⟩
    rw [firstNamed, firstNamed, ← List.head?_filter, ← List.head?_filter, hsame]
  · rcases absent_or_first name named with h | ⟨front, value, back, rfl, h⟩
    · have hnone : named.filter (·.1 == name) = [] :=
        List.filter_eq_nil_iff.mpr fun entry hmem => by simpa using h entry hmem
      rw [hnone, List.perm_nil] at hfilter
      refine ⟨.inl (hfilter ▸ Nat.zero_le 1), ?_⟩
      rw [firstNamed, firstNamed, ← List.head?_filter, ← List.head?_filter, hfilter, hnone]
    · have htake (rest : List (String × Value)) :
          (front ++ (name, value) :: rest).takeWhile (·.1 != name) = front := by
        rw [List.takeWhile_append_of_pos fun entry hmem => by simpa using h entry hmem,
          List.takeWhile_cons_of_neg (by simp), List.append_nil]
      rw [htake] at hfront
      have hothers : ∀ entry ∈ front ++ [(name, value)], entry.1 ≠ other := by
        rw [List.forall_mem_append]
        refine ⟨fun entry hmem hentry => hfront entry hmem (hentry ▸ List.mem_cons_self), ?_⟩
        rw [List.forall_mem_singleton]
        exact hne.symm
      obtain ⟨rest, hrest⟩ := takeNamed_append hothers back
      rw [List.append_assoc, List.append_assoc] at hrest
      change (takeNamed other (front ++ (name, value) :: back)).2 =
        front ++ (name, value) :: rest at hrest
      rw [hrest, firstNamed, firstNamed, find?_append_first h, find?_append_first h]
      refine ⟨.inr ?_, rfl⟩
      rw [htake]
      exact fun entry hmem hearlier => hfront entry hmem (List.mem_cons_of_mem _ hearlier)

/-- What a parameter gets when another one has been served is what it gets in its turn. -/
private theorem NamedValue.of_takeNamed
    (h : NamedValue (takeNamed other named).2 earlier name value)
    (hne : other ≠ name) : NamedValue named (other :: earlier) name value := by
  have hmem (entry : String × Value) (hentry : entry.1 = name) :
      entry ∈ (takeNamed other named).2 ↔ entry ∈ named := by
    have hmem := (filter_takeNamed hne named).mem_iff (a := entry)
    simpa [hentry] using hmem
  refine ⟨fun ⟨entry, hnamed, hentry⟩ => ?_, fun habsent => ?_, fun hsettled => ?_⟩
  · exact (hmem _ rfl).mp (h.given ⟨entry, (hmem entry hentry).mpr hnamed, hentry⟩)
  · exact h.absent fun entry hleft hentry => habsent entry ((hmem entry hentry).mp hleft) hentry
  · obtain ⟨hleft, hfirst⟩ := hsettled.later hne
    rw [h.first hleft, hfirst]

/-! ## Binding -/

theorem map_fst_bindParameters (names : List String) (positional : List Value)
    (named : List (String × Value)) :
    (bindParameters names positional named).map (·.1) = names := by
  induction names generalizing positional named with
  | nil => rfl
  | cons name names ih =>
    cases positional with
    | nil => exact congrArg (name :: ·) (ih [] _)
    | cons value positional => exact congrArg (name :: ·) (ih positional named)

/-- The parameters behind the last positional argument. -/
private theorem namedValue_bindParameters (hdistinct : names.Nodup) {index : Nat}
    (h : (bindParameters names [] named)[index]? = some (name, value)) :
    NamedValue named (names.take index) name value := by
  induction names generalizing named index with
  | nil => cases h
  | cons first names ih =>
    rw [List.nodup_cons] at hdistinct
    cases index with
    | zero =>
      obtain ⟨rfl, rfl⟩ := Prod.mk.inj (Option.some.inj h)
      exact namedValue_takeNamed first named
    | succ index =>
      have htail : (bindParameters names [] (takeNamed first named).2)[index]? =
        some (name, value) := h
      have hname : name ∈ names := by
        rw [← map_fst_bindParameters names [] (takeNamed first named).2]
        exact List.mem_map_of_mem (List.mem_of_getElem? htail)
      exact (ih hdistinct.2 htail).of_takeNamed fun heq => hdistinct.1 (heq ▸ hname)

/-- What a parameter is bound to: the positional argument at its place if there is one, and a named
argument if not. -/
inductive Receives (parameters : List String) (arguments : Arguments) (index : Nat)
    (name : String) (value : Value) : Prop where
  | positional (h : arguments.positional[index]? = some value)
  | named (hbehind : arguments.positional.length ≤ index)
      (h : NamedValue arguments.named
        ((parameters.take index).drop arguments.positional.length) name value)

private theorem receives_bindParameters (hdistinct : names.Nodup) {index : Nat}
    (h : (bindParameters names positional named)[index]? = some (name, value)) :
    Receives names ⟨positional, named⟩ index name value := by
  induction names generalizing positional index with
  | nil => cases h
  | cons first names ih =>
    cases positional with
    | nil =>
      exact .named (Nat.zero_le _) (namedValue_bindParameters hdistinct h)
    | cons given positional =>
      cases index with
      | zero =>
        obtain ⟨rfl, rfl⟩ := Prod.mk.inj (Option.some.inj h)
        exact .positional rfl
      | succ index =>
        rcases ih (List.nodup_cons.mp hdistinct).2 h with hgiven | ⟨hbehind, hnamed⟩
        · exact .positional hgiven
        · exact .named (Nat.succ_le_succ hbehind) hnamed

private theorem foldl_assign (scopes : Scopes) (frame : PropertyMap)
    (bindings : List (String × Value)) :
    bindings.foldl (fun scopes (name, value) => scopes.assign name value)
        { scopes with locals := frame :: scopes.locals } =
      { scopes with locals := frame.insertAll bindings :: scopes.locals } := by
  induction bindings generalizing frame with
  | nil => rfl
  | cons binding rest ih => exact ih (frame.insert binding.1 binding.2)

/-- A call that is not refused runs the body of the function one level further in, in a new frame
that binds the parameters in their order. A parameter is bound to the positional argument at its
place; behind these, to an argument of its name, or to null if there is none. It is the first
argument of that name if no other one has the name, or if no argument in front of it is taken by a
parameter in front. -/
theorem callFunction_binds {function : Function} (hdistinct : function.parameters.Nodup)
    (commands : Commands) (callees : Callees) (arguments : Arguments) (world : World Session) :
    ∃ values : List Value, values.length = function.parameters.length ∧
      (∀ index name value, function.parameters[index]? = some name →
        values[index]? = some value →
        Receives function.parameters arguments index name value) ∧
      (callFunction commands callees function arguments).run world =
        if depthLimit ≤ world.host.depth then (refuse function).run world
        else (bodyOf commands callees function).run
          { world with
            host := { world.host with
              scopes := { world.host.scopes with
                locals := ⟨function.parameters.zip values⟩ :: world.host.scopes.locals }
              depth := world.host.depth + 1 } } := by
  let bindings := bindParameters function.parameters arguments.positional arguments.named
  have hnames : bindings.map (·.1) = function.parameters := map_fst_bindParameters _ _ _
  have hzip : function.parameters.zip (bindings.map (·.2)) = bindings := by
    rw [← hnames]
    exact (List.zip_of_prod rfl rfl).symm
  have hframe : PropertyMap.empty.insertAll bindings = ⟨bindings⟩ :=
    PropertyMap.insertAll_of_fresh (hnames ▸ hdistinct) fun _ _ => List.not_mem_nil
  refine ⟨bindings.map (·.2), by rw [List.length_map, ← hnames, List.length_map], ?_, ?_⟩
  · intro index name value hname hvalue
    refine receives_bindParameters hdistinct ?_
    change bindings[index]? = _
    rw [← hzip, List.getElem?_zip_eq_some]
    exact ⟨hname, hvalue⟩
  · rw [run_callFunction, hzip, enter, Scopes.push, foldl_assign, hframe]

/-- Where the place of an argument that is taken goes to another one of the next name. -/
example : bindParameters ["a", "b"] [] [("a", .null), ("b", .text "first"), ("b", .text "last")] =
    [("a", .null), ("b", .text "last")] := rfl

/-- `func f(a, b, c) { return c }`. -/
def lastOfThree : Function :=
  ⟨"f", ["a", "b", "c"], [.leave .start (some (.name .start "c"))], .start⟩

/-- The arguments of `f(1, c: 3, b: 2, c: 4)`. -/
def mixedArguments : Arguments :=
  ⟨[.number 1], [("c", .number 3), ("b", .number 2), ("c", .number 4)]⟩

theorem callFunction_binds_mixedArguments :
    lastOfThree.parameters.Nodup ∧
      (callFunction Standard.commands (outermost Standard.commands) lastOfThree mixedArguments).run
          (.initial ⟨1, 1⟩ (.ofSettings .default)) =
        (bodyOf Standard.commands (outermost Standard.commands) lastOfThree).run
          (.initial ⟨1, 1⟩
            { ofSettings .default with
              scopes := ⟨.empty, [⟨[("a", .number 1), ("b", .number 2), ("c", .number 3)]⟩]⟩
              depth := 1 }) := by
  have hdistinct : lastOfThree.parameters.Nodup := by decide
  obtain ⟨values, hlength, hreceives, hrun⟩ := callFunction_binds hdistinct Standard.commands
    (outermost Standard.commands) mixedArguments (.initial ⟨1, 1⟩ (.ofSettings .default))
  obtain ⟨a, b, c, rfl⟩ : ∃ a b c, values = [a, b, c] :=
    match values, hlength with
    | [a, b, c], _ => ⟨a, b, c, rfl⟩
  have ha : a = .number 1 := by
    rcases hreceives 0 "a" a rfl rfl with h | ⟨hbehind, -⟩
    · exact (Option.some.inj h).symm
    · exact absurd hbehind (by decide)
  have hb : b = .number 2 := by
    rcases hreceives 1 "b" b rfl rfl with h | ⟨-, h⟩
    · cases h
    · exact h.first (.inl (by decide))
  have hc : c = .number 3 := by
    rcases hreceives 2 "c" c rfl rfl with h | ⟨-, h⟩
    · cases h
    · exact h.first (.inr nofun)
  subst ha hb hc
  exact ⟨hdistinct, hrun⟩

end Animatic.Session
