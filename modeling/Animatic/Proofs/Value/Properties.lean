import Animatic.Value.PropertyMap

/-!
# New names in property maps

* `find?_of_mem`: where names are distinct, what stands under a name is found.
* `PropertyMap.insertAll_of_fresh`: new names go behind the ones that are there, in their order.
* `PropertyMap.getIgnoringCase?_of_only`: a name that is there once is found, whatever its case.
-/

namespace Animatic

/-- Where names are distinct, what stands under a name is found. -/
theorem find?_of_mem {α : Type} {entries : List (String × α)} {entry : String × α}
    (hdistinct : (entries.map (·.1)).Nodup) (hmem : entry ∈ entries) :
    entries.find? (·.1 == entry.1) = some entry := by
  induction entries with
  | nil => cases hmem
  | cons first rest ih =>
    rw [List.map_cons, List.nodup_cons] at hdistinct
    rcases List.mem_cons.mp hmem with rfl | hrest
    · exact List.find?_cons_of_pos (beq_self_eq_true _)
    · have hne : first.1 ≠ entry.1 := fun h => hdistinct.1 (h ▸ List.mem_map_of_mem hrest)
      rw [List.find?_cons_of_neg (by simpa using hne)]
      exact ih hdistinct.2 hrest

namespace PropertyMap

variable {map : PropertyMap} {entries : List (String × Value)} {name : String}

private theorem insertEntry_of_fresh (h : name ∉ entries.map (·.1)) (value : Value) :
    insertEntry name value entries = entries ++ [(name, value)] := by
  induction entries with
  | nil => rfl
  | cons entry rest ih =>
    rw [List.map_cons, List.mem_cons, not_or] at h
    rw [insertEntry, if_neg (Ne.symm h.1), ih h.2]
    rfl

/-- A new name goes behind the ones that are there. -/
theorem insert_of_fresh (h : name ∉ map.keys) (value : Value) :
    map.insert name value = ⟨map.entries ++ [(name, value)]⟩ := by
  rw [insert, insertEntry_of_fresh h]

/-- New names go behind the ones that are there, in their order. -/
theorem insertAll_of_fresh (hdistinct : (entries.map (·.1)).Nodup)
    (hfresh : ∀ entry ∈ entries, entry.1 ∉ map.keys) :
    map.insertAll entries = ⟨map.entries ++ entries⟩ := by
  induction entries generalizing map with
  | nil =>
    rw [List.append_nil]
    rfl
  | cons entry rest ih =>
    rw [List.map_cons, List.nodup_cons] at hdistinct
    rw [List.forall_mem_cons] at hfresh
    change (map.insert entry.1 entry.2).insertAll rest = _
    rw [insert_of_fresh hfresh.1, ih hdistinct.2, List.append_assoc]
    · rfl
    · intro other hother hkey
      rw [keys, List.map_append, List.mem_append, List.map_singleton, List.mem_singleton] at hkey
      rcases hkey with hkey | hkey
      · exact hfresh.2 other hother hkey
      · exact hdistinct.1 (hkey ▸ List.mem_map_of_mem hother)

/-! ## Names whose case is ignored -/

private theorem sameIgnoringCase_self (name : String) : Text.sameIgnoringCase name name = true :=
  beq_self_eq_true _

/-- A name that is there once when case is ignored is found, whatever its case. -/
theorem getIgnoringCase?_of_only {entry : String × Value} (hmem : entry ∈ map.entries)
    (hsame : Text.sameIgnoringCase entry.1 name = true)
    (honly : ∀ other ∈ map.entries, Text.sameIgnoringCase other.1 name = true → other = entry) :
    map.getIgnoringCase? name = some entry.2 := by
  rw [getIgnoringCase?, get?]
  cases hexact : map.entries.find? (·.1 == name) with
  | some found =>
    have heq : found.1 = name := by simpa using List.find?_some hexact
    obtain rfl := honly found (List.mem_of_find?_eq_some hexact) (heq ▸ sameIgnoringCase_self name)
    rfl
  | none =>
    cases hfound : map.entries.find? (Text.sameIgnoringCase ·.1 name) with
    | some found =>
      have hlike : Text.sameIgnoringCase found.1 name = true := by
        simpa using List.find?_some hfound
      obtain rfl := honly found (List.mem_of_find?_eq_some hfound) hlike
      rfl
    | none => exact absurd hsame (List.find?_eq_none.mp hfound entry hmem)

/-- A name is there in some case, or no name is like it. -/
theorem containsIgnoringCase_eq_false_iff :
    map.containsIgnoringCase name = false ↔
      ∀ entry ∈ map.entries, Text.sameIgnoringCase entry.1 name = false := by
  rw [containsIgnoringCase, Option.isSome_eq_false_iff, Option.isNone_iff_eq_none, getIgnoringCase?,
    Option.or_eq_none_iff, get?, Option.map_eq_none_iff, Option.map_eq_none_iff,
    List.find?_eq_none, List.find?_eq_none]
  constructor
  · intro h entry hmem
    exact Bool.not_eq_true _ ▸ h.2 entry hmem
  · intro h
    refine ⟨fun entry hmem hexact => ?_, fun entry hmem => by simp [h entry hmem]⟩
    have hsame := h entry hmem
    rw [beq_iff_eq.mp hexact, sameIgnoringCase_self] at hsame
    cases hsame

theorem notMem_keys_of_containsIgnoringCase (h : map.containsIgnoringCase name = false) :
    name ∉ map.keys := by
  intro hmem
  obtain ⟨entry, hentry, rfl⟩ := List.mem_map.mp hmem
  have hsame := containsIgnoringCase_eq_false_iff.mp h entry hentry
  rw [sameIgnoringCase_self] at hsame
  cases hsame

end PropertyMap

end Animatic
