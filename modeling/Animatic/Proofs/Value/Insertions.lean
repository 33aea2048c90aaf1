import Mathlib.Data.Finset.Card
import Mathlib.Data.List.Induction
import Animatic.Proofs.Value.Properties

/-!
# What insertions leave in a property map

A property map holds what the plain list of the insertions that filled it tells.

* `PropertyMap.keys_insert`, `PropertyMap.get?_insert`: what one insertion does.
* `PropertyMap.Records`: what a map holds after some insertions.
* `PropertyMap.records_ofList`: a map records the insertions that filled it.
-/

namespace Animatic.PropertyMap

variable {map : PropertyMap} {name other : String} {value : Value}
  {insertions : List (String × Value)}

/-! ## One insertion -/

private theorem map_insertEntry (name : String) (value : Value)
    (entries : List (String × Value)) :
    (insertEntry name value entries).map (·.1) =
      if name ∈ entries.map (·.1) then entries.map (·.1) else entries.map (·.1) ++ [name] := by
  induction entries with
  | nil => rfl
  | cons entry rest ih =>
    rw [insertEntry, List.map_cons]
    by_cases h : entry.1 = name
    · rw [if_pos h, List.map_cons, if_pos (h ▸ List.mem_cons_self), h]
    · rw [if_neg h, List.map_cons, ih]
      simp only [List.mem_cons, or_iff_right (Ne.symm h)]
      split <;> rfl

private theorem find?_entry (name other : String) (value : Value)
    (entries : List (String × Value)) :
    (((name, value) :: entries).find? (·.1 == other)).map (·.2) =
      if name = other then some value else (entries.find? (·.1 == other)).map (·.2) := by
  rw [List.find?_cons]
  by_cases h : name = other
  · rw [if_pos h, beq_iff_eq.mpr h]
    rfl
  · rw [if_neg h, beq_eq_false_iff_ne.mpr h]

private theorem find?_insertEntry (name other : String) (value : Value)
    (entries : List (String × Value)) :
    ((insertEntry name value entries).find? (·.1 == other)).map (·.2) =
      if name = other then some value else (entries.find? (·.1 == other)).map (·.2) := by
  induction entries with
  | nil => exact find?_entry name other value []
  | cons entry rest ih =>
    obtain ⟨present, old⟩ := entry
    rw [insertEntry, find?_entry present]
    by_cases hpresent : present = name
    · rw [if_pos hpresent, find?_entry name, hpresent]
      split <;> rfl
    · rw [if_neg hpresent, find?_entry present, ih]
      by_cases h : present = other
      · rw [if_pos h, if_pos h, if_neg fun hname => hpresent (h.trans hname.symm)]
      · rw [if_neg h, if_neg h]

/-- A name keeps its place, and a new one comes last. -/
theorem keys_insert :
    (map.insert name value).keys = if name ∈ map.keys then map.keys else map.keys ++ [name] :=
  map_insertEntry name value map.entries

/-- The value under a name is the one that is inserted, and those under other names stay. -/
theorem get?_insert :
    (map.insert name value).get? other = if name = other then some value else map.get? other :=
  find?_insertEntry name other value map.entries

/-! ## All insertions -/

/-- The value that the last of some insertions under exactly a name gives it. -/
def latest? (insertions : List (String × Value)) (name : String) : Option Value :=
  (insertions.reverse.find? (·.1 == name)).map (·.2)

theorem latest?_concat (name other : String) (value : Value) :
    latest? (insertions ++ [(name, value)]) other =
      if name = other then some value else latest? insertions other := by
  rw [latest?, List.reverse_concat, find?_entry, latest?]

theorem ofList_concat (name : String) (value : Value) :
    ofList (insertions ++ [(name, value)]) = (ofList insertions).insert name value := by
  rw [ofList, insertAll, List.foldl_concat, ofList, insertAll]

theorem ofList_append (more : List (String × Value)) :
    ofList (insertions ++ more) = (ofList insertions).insertAll more := by
  rw [ofList, insertAll, List.foldl_append, ofList, insertAll, insertAll]

theorem get?_ofList (insertions : List (String × Value)) (name : String) :
    (ofList insertions).get? name = latest? insertions name := by
  induction insertions using List.reverseRecOn with
  | nil => rfl
  | append_singleton insertions insertion ih =>
    obtain ⟨given, value⟩ := insertion
    rw [ofList_concat, get?_insert, latest?_concat, ih]

private theorem eraseDups_concat (names : List String) (name : String) :
    (names ++ [name]).eraseDups =
      if name ∈ names then names.eraseDups else names.eraseDups ++ [name] := by
  rw [List.eraseDups_append, List.removeAll, List.filter_singleton]
  by_cases h : name ∈ names
  · simp [h]
  · simp [h, List.eraseDups_cons]

/-- The names stand in the order in which each was first given. -/
theorem keys_ofList (insertions : List (String × Value)) :
    (ofList insertions).keys = (insertions.map (·.1)).eraseDups := by
  induction insertions using List.reverseRecOn with
  | nil => rfl
  | append_singleton insertions insertion ih =>
    obtain ⟨name, value⟩ := insertion
    rw [ofList_concat, keys_insert, ih, List.map_append, List.map_singleton, eraseDups_concat]
    simp only [List.mem_eraseDups]

theorem nodup_keys_insert (h : map.keys.Nodup) : (map.insert name value).keys.Nodup := by
  rw [keys_insert]
  split
  · exact h
  · rename_i hname
    exact h.append (List.nodup_singleton name) (List.disjoint_singleton.mpr hname)

theorem nodup_keys_ofList (insertions : List (String × Value)) :
    (ofList insertions).keys.Nodup := by
  induction insertions using List.reverseRecOn with
  | nil => exact List.nodup_nil
  | append_singleton insertions insertion ih =>
    rw [ofList_concat]
    exact nodup_keys_insert ih

/-- Where no name is exactly the one that is looked up, the first that is like it answers. -/
theorem getIgnoringCase?_eq (hdistinct : map.keys.Nodup) (name : String) :
    map.getIgnoringCase? name =
      (map.get? name).or ((map.keys.find? (Text.sameIgnoringCase · name)).bind map.get?) := by
  rw [getIgnoringCase?, keys, List.find?_map]
  congr 1
  change _ = ((map.entries.find? (Text.sameIgnoringCase ·.1 name)).map (·.1)).bind map.get?
  cases hfind : map.entries.find? (Text.sameIgnoringCase ·.1 name) with
  | none => rfl
  | some entry =>
    have hentry : map.get? entry.1 = some entry.2 := by
      rw [get?, find?_of_mem hdistinct (List.mem_of_find?_eq_some hfind)]
      rfl
    exact hentry.symm

/-- What a map holds after some insertions, oldest first. -/
structure Records (insertions : List (String × Value)) (map : PropertyMap) : Prop where
  /-- Each name stands once, at the place of the first insertion under it. -/
  keys : map.keys = (insertions.map (·.1)).eraseDups
  distinct : map.keys.Nodup
  /-- The last insertion under exactly a name gives its value. -/
  get? : ∀ name, map.get? name = latest? insertions name
  /-- A name that is not there is read as the first one that is like it. -/
  getIgnoringCase? : ∀ name, map.getIgnoringCase? name =
    (map.get? name).or ((map.keys.find? (Text.sameIgnoringCase · name)).bind (latest? insertions))
  isSome_getIgnoringCase? : ∀ name,
    (map.getIgnoringCase? name).isSome = map.containsIgnoringCase name
  containsIgnoringCase_iff : ∀ name, map.containsIgnoringCase name = true ↔
    ∃ insertion ∈ insertions, Text.sameIgnoringCase insertion.1 name = true
  size : map.size = (insertions.map (·.1)).toFinset.card

theorem mem_keys_ofList {name : String} :
    name ∈ (ofList insertions).keys ↔ name ∈ insertions.map (·.1) := by
  rw [keys_ofList, List.mem_eraseDups]

/-- A map records the insertions that filled it. -/
theorem records_ofList (insertions : List (String × Value)) :
    (ofList insertions).Records insertions where
  keys := keys_ofList insertions
  distinct := nodup_keys_ofList insertions
  get? := get?_ofList insertions
  getIgnoringCase? name := by
    rw [getIgnoringCase?_eq (nodup_keys_ofList insertions), funext (get?_ofList insertions)]
  isSome_getIgnoringCase? _ := rfl
  containsIgnoringCase_iff name := by
    rw [← not_iff_not, Bool.not_eq_true, containsIgnoringCase_eq_false_iff]
    have hmem (given : String) :
        given ∈ (ofList insertions).entries.map (·.1) ↔ given ∈ insertions.map (·.1) :=
      mem_keys_ofList
    constructor
    · rintro h ⟨insertion, hinsertion, hsame⟩
      obtain ⟨entry, hentry, heq⟩ :=
        List.mem_map.mp ((hmem _).mpr (List.mem_map_of_mem hinsertion))
      rw [← heq, h entry hentry] at hsame
      cases hsame
    · intro h entry hentry
      obtain ⟨insertion, hinsertion, heq⟩ :=
        List.mem_map.mp ((hmem _).mp (List.mem_map_of_mem hentry))
      rw [Bool.eq_false_iff, ← heq]
      exact fun hsame => h ⟨insertion, hinsertion, hsame⟩
  size := by
    have hkeys : (insertions.map (·.1)).toFinset = (ofList insertions).keys.toFinset := by
      ext name
      rw [List.mem_toFinset, List.mem_toFinset, mem_keys_ofList]
    rw [hkeys, List.toFinset_card_of_nodup (nodup_keys_ofList insertions), PropertyMap.keys,
      List.length_map, PropertyMap.size]

end Animatic.PropertyMap
