/-!
# Log entries

What happened, in the order in which it happened, with its importance.
-/

namespace Animatic

/-- The importance of a log entry. -/
inductive LogLevel where
  | warn
  | info
  | debug
  deriving DecidableEq, Repr

/-- A level as a number: the more important, the lower. -/
def LogLevel.rank : LogLevel → Nat
  | warn => 0
  | info => 1
  | debug => 2

/-- A message and its importance. -/
structure LogEntry where
  level : LogLevel
  message : String
  deriving DecidableEq, Repr

/-- The line of an entry that a user should see. -/
def LogEntry.warning? (entry : LogEntry) : Option String :=
  match entry.level with
  | .warn => some ("[WARN] " ++ entry.message)
  | _ => none

end Animatic
