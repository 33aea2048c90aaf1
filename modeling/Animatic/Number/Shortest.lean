import Animatic.Number.Exact

/-!
# The shortest decimal that reads back

Of all decimals that round to a given binary number, `shortest` takes one with the fewest digits
and, among those, the one nearest to the number; of two equally near it takes the greater.

* `Interval.holds` tells which multiples of a power of ten round to the number.
* `shortest` tries grids of decimals from coarse to fine. The two neighbours of the number on a
  grid decide whether the grid has a decimal that rounds to it.
-/

namespace Animatic.Number

open Float.Model (Format UnpackedFloat)

/-- A decimal number: `coefficient * 10 ^ exponent`. -/
structure Decimal where
  coefficient : Nat
  exponent : Int
  deriving DecidableEq, Repr

/-- The reals that round to one positive binary number, over a common denominator. The ends belong
to the interval when the number's last bit is zero. -/
structure Interval where
  low : Nat
  value : Nat
  high : Nat
  denominator : Nat
  closed : Bool

/-- The reals that round to `mantissa * 2 ^ exponent`: half a step to either side, where the step
below a power of two is half as long. -/
def Interval.around (format : Format) (mantissa : Nat) (exponent : Int) : Interval :=
  let below :=
    if mantissa = Nat.pow 2 format.mantissaBitsWithoutImplicit ∧ format.minExponent < exponent
    then 1 else 2
  let up := (exponent - 2).toNat
  { low := (4 * mantissa - below) <<< up
    value := (4 * mantissa) <<< up
    high := (4 * mantissa + 2) <<< up
    denominator := 1 <<< (2 - exponent).toNat
    closed := mantissa % 2 = 0 }

/-- The same interval measured in units of `10 ^ grid`. -/
def Interval.inUnits (interval : Interval) (grid : Int) : Interval :=
  let enlarge := Nat.pow 10 (-grid).toNat
  { interval with
    low := interval.low * enlarge
    value := interval.value * enlarge
    high := interval.high * enlarge
    denominator := interval.denominator * Nat.pow 10 grid.toNat }

/-- Whether a whole number of units lies in the interval. -/
def Interval.holds (interval : Interval) (units : Nat) : Bool :=
  let scaled := units * interval.denominator
  if interval.closed then interval.low ≤ scaled && scaled ≤ interval.high
  else interval.low < scaled && scaled < interval.high

/-- The whole number of units in the interval that is nearest to the number, if there is one. -/
def Interval.nearest? (interval : Interval) : Option Nat :=
  let down := interval.value / interval.denominator
  let beyond := interval.value % interval.denominator
  match interval.holds down, interval.holds (down + 1) with
  | true, true => some (if interval.denominator ≤ 2 * beyond then down + 1 else down)
  | true, false => some down
  | false, true => some (down + 1)
  | false, false => none

/-- Searches the grids `10 ^ grid`, `10 ^ (grid - 1)`, … and falls back to the last one. -/
def Interval.search (interval : Interval) : Nat → Int → Decimal
  | 0, grid =>
    let scaled := interval.inUnits grid
    ⟨scaled.value / scaled.denominator, grid⟩
  | more + 1, grid =>
    match (interval.inUnits grid).nearest? with
    | some units => ⟨units, grid⟩
    | none => interval.search more (grid - 1)

/-- The shortest decimal that reads back as the positive number `mantissa * 2 ^ exponent`. The first
grid is never finer than the number's leading digit, and twenty grids further every binary64 number
has a neighbour that reads back. -/
def shortest (format : Format) (mantissa : Nat) (exponent : Int) : Decimal :=
  let leading := (mantissa.log2 + exponent) * 30103 / 100000
  (Interval.around format mantissa exponent).search 24 (leading + 2)

end Animatic.Number
