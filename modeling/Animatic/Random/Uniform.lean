import Animatic.Random.ChaCha

/-!
# Random numbers

A source of random numbers is a key and the number of draws made from its stream. A draw from an
interval keeps clear of the upper end, drawing again where rounding would reach it.
-/

namespace Animatic.Random

/-- A stream and how far it has been read. -/
structure Source where
  key : Key
  drawn : Nat

/-- The unread stream of a seed. -/
def Source.ofSeed (seed : UInt64) : Source := ⟨.ofSeed seed, 0⟩

/-- A number from one up to two: the high bits of a word as its fraction. -/
def fromOneToTwo (word : UInt64) : Float := Float.ofBits ((word >>> 12) ||| 0x3ff0000000000000)

/-- A number from `low` up to `high`, with at most `attempts` further draws. -/
def Source.between (low high : Float) : Nat → Source → Float × Source
  | attempts, source =>
    let r := (fromOneToTwo (source.key.word64 source.drawn) - 1) * (high - low) + low
    let source := { source with drawn := source.drawn + 1 }
    match attempts with
    | 0 => (r, source)
    | attempts + 1 => if r < high then (r, source) else source.between low high attempts

/-- The number of draws after which an interval is given up. -/
def attemptLimit : Nat := 10000

end Animatic.Random
