import Animatic.Value.Basic

/-!
# Property maps

Named values in the order in which the names were first given. A name given again keeps its place
and takes the new value. Names are looked up exactly, or ignoring the case of ASCII letters, in
which case an exact match still comes first.
-/

namespace Animatic

/-- Named values in the order of declaration. -/
structure PropertyMap where
  entries : List (String × Value)

namespace PropertyMap

/-- No properties. -/
def empty : PropertyMap := ⟨[]⟩

instance : Inhabited PropertyMap := ⟨empty⟩

/-- The value under exactly this name. -/
def get? (map : PropertyMap) (name : String) : Option Value :=
  (map.entries.find? (·.1 == name)).map (·.2)

/-- The value under this name, or else under the first name that differs in case only. -/
def getIgnoringCase? (map : PropertyMap) (name : String) : Option Value :=
  (map.get? name).or ((map.entries.find? (Text.sameIgnoringCase ·.1 name)).map (·.2))

/-- Whether a name is present when case is ignored. -/
def containsIgnoringCase (map : PropertyMap) (name : String) : Bool :=
  (map.getIgnoringCase? name).isSome

/-- The entries after a name is given a value. -/
def insertEntry (name : String) (value : Value) : List (String × Value) → List (String × Value)
  | [] => [(name, value)]
  | entry :: rest =>
    if entry.1 = name then (name, value) :: rest else entry :: insertEntry name value rest

/-- Gives a name a value, in place if the name is present and last if it is new. -/
def insert (map : PropertyMap) (name : String) (value : Value) : PropertyMap :=
  ⟨insertEntry name value map.entries⟩

/-- Gives several names their values, one after the other. -/
def insertAll (map : PropertyMap) (entries : List (String × Value)) : PropertyMap :=
  entries.foldl (fun map (name, value) => map.insert name value) map

/-- The map that a list of named values makes. -/
def ofList (entries : List (String × Value)) : PropertyMap := empty.insertAll entries

/-- The names in order. -/
def keys (map : PropertyMap) : List String := map.entries.map (·.1)

/-- The number of names. -/
def size (map : PropertyMap) : Nat := map.entries.length

/-- Whether there is no name. -/
def isEmpty (map : PropertyMap) : Bool := map.entries.isEmpty

end PropertyMap

end Animatic
