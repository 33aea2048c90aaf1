import Animatic.Value.Basic

/-!
# Call arguments

Evaluated arguments of a call. Commands look a named argument up ignoring the case of ASCII letters;
where an argument may be given either way, the named one wins.
-/

namespace Animatic

/-- The arguments of a call in the order they were given. -/
structure Arguments where
  positional : List Value
  named : List (String × Value)

namespace Arguments

/-- No arguments. -/
def empty : Arguments := ⟨[], []⟩

/-- Arguments by position alone. -/
def ofList (values : List Value) : Arguments := ⟨values, []⟩

/-- The positional argument at an index. -/
def at? (arguments : Arguments) (index : Nat) : Option Value := arguments.positional[index]?

/-- The first argument of a name, ignoring case. -/
def named? (arguments : Arguments) (name : String) : Option Value :=
  (arguments.named.find? (Text.sameIgnoringCase ·.1 name)).map (·.2)

/-- The argument of a name, or else the one at an index. -/
def get? (arguments : Arguments) (index : Nat) (name : String) : Option Value :=
  (arguments.named? name).or (arguments.at? index)

/-- The numeric reading of an argument. -/
def number? (arguments : Arguments) (index : Nat) (name : String) : Option Float :=
  (arguments.get? index name).map Value.toNumber

/-- Whether there is no argument at all. -/
def isEmpty (arguments : Arguments) : Bool :=
  arguments.positional.isEmpty && arguments.named.isEmpty

end Arguments

end Animatic
