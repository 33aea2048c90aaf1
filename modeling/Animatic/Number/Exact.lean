/-!
# Exact readings of floating-point numbers

A binary number is looked at through its exact class and value, so that a change of width, a
whole-number reading and a remainder are each one integer computation and one rounding.

* `narrow`/`widen` change between the two widths, to the nearest value with ties to even.
* `truncWithin`, `ceilWithin`, `roundWithin` read a whole number that saturates at a limit: below
  zero and not-a-number read as zero.
* `remainder` is exact and keeps the sign of the dividend.
* `least`, `greatest` ignore an operand that is not a number; `clamp` keeps it.
-/

namespace Animatic.Number

open Float.Model (Format UnpackedFloat)

/-- The class and exact value of a binary64 number. -/
def exact (x : Float) : UnpackedFloat := x.toModel.unpack

/-- The class and exact value of a binary32 number. -/
def exact32 (x : Float32) : UnpackedFloat := x.toModel.unpack

/-- The nearest value of a format, ties to even. -/
def nearest (format : Format) : UnpackedFloat → UnpackedFloat
  | .finite sign mantissa exponent _ => UnpackedFloat.round format sign mantissa exponent
  | value => value

/-- The binary64 number with a given value, after rounding. -/
def ofExact (value : UnpackedFloat) : Float := ⟨.pack (nearest .binary64 value)⟩

/-- The binary32 number with a given value, after rounding. -/
def ofExact32 (value : UnpackedFloat) : Float32 := ⟨.pack (nearest .binary32 value)⟩

/-- The nearest binary32 number. -/
def narrow (x : Float) : Float32 := ofExact32 (exact x)

/-- The binary64 number of the same value. -/
def widen (x : Float32) : Float := ofExact (exact32 x)

/-- The largest whole number at most `mantissa * 2 ^ exponent`. -/
def floorScaled (mantissa : Nat) (exponent : Int) : Nat :=
  if 0 ≤ exponent then mantissa <<< exponent.toNat else mantissa >>> (-exponent).toNat

/-- The least whole number at least `mantissa * 2 ^ exponent`. -/
def ceilScaled (mantissa : Nat) (exponent : Int) : Nat :=
  if 0 ≤ exponent then mantissa <<< exponent.toNat
  else (mantissa + (Nat.pow 2 (-exponent).toNat - 1)) >>> (-exponent).toNat

/-- A whole-number reading of a value: each positive finite number is read by `whole`, and the
result never exceeds `limit`. -/
def wholeWithin (whole : Nat → Int → Nat) (limit : Nat) : UnpackedFloat → Nat
  | .finite .positive mantissa exponent _ => min limit (whole mantissa exponent)
  | .infinity .positive => limit
  | _ => 0

/-- A reading keeps to its limit. -/
theorem wholeWithin_le (whole : Nat → Int → Nat) (limit : Nat) (value : UnpackedFloat) :
    wholeWithin whole limit value ≤ limit := by
  unfold wholeWithin
  split
  · exact Nat.min_le_left _ _
  · exact Nat.le_refl _
  · exact Nat.zero_le _

/-- The value without its fraction. -/
def truncWithin : Nat → UnpackedFloat → Nat := wholeWithin floorScaled

/-- The least whole number that is not below the value. -/
def ceilWithin : Nat → UnpackedFloat → Nat := wholeWithin ceilScaled

/-- The nearest whole number, a half going up. -/
def roundWithin : Nat → UnpackedFloat → Nat :=
  wholeWithin fun mantissa exponent => (floorScaled mantissa (exponent + 1) + 1) / 2

/-- The largest 32-bit word. -/
def wordLimit : Nat := Nat.pow 2 32 - 1

/-- The largest 64-bit word. -/
def longLimit : Nat := Nat.pow 2 64 - 1

/-- The value as an integer, when it has no fraction. -/
def integer? : UnpackedFloat → Option Int
  | .zero _ => some 0
  | .finite sign mantissa exponent _ =>
    let whole := floorScaled mantissa exponent
    if whole = ceilScaled mantissa exponent then
      some (match sign with | .positive => whole | .negative => -whole)
    else none
  | _ => none

/-- The remainder of a division whose quotient is truncated; a remainder of zero keeps the sign of
the dividend. -/
def remainderExact : UnpackedFloat → UnpackedFloat → UnpackedFloat
  | .finite sign m₁ e₁ _, .finite _ m₂ e₂ _ =>
    let e := min e₁ e₂
    let rest := (m₁ <<< (e₁ - e).toNat) % (m₂ <<< (e₂ - e).toNat)
    if h : 0 < rest then .finite sign rest e h else .zero sign
  | .finite sign m e h, .infinity _ => .finite sign m e h
  | .zero sign, .finite .. => .zero sign
  | .zero sign, .infinity _ => .zero sign
  | _, _ => .notANumber

/-- The remainder of `a` by `b`, with the sign of `a`. -/
def remainder (a b : Float) : Float := ofExact (remainderExact (exact a) (exact b))

/-- The lesser of two numbers; one that is not a number is ignored. -/
def least (a b : Float) : Float := if a.isNaN then b else if b < a then b else a

/-- The greater of two numbers; one that is not a number is ignored. -/
def greatest (a b : Float) : Float := if a.isNaN then b else if a < b then b else a

/-- The lesser of two binary32 numbers; one that is not a number is ignored. -/
def least32 (a b : Float32) : Float32 := if a.isNaN then b else if b < a then b else a

/-- The greater of two binary32 numbers; one that is not a number is ignored. -/
def greatest32 (a b : Float32) : Float32 := if a.isNaN then b else if a < b then b else a

/-- The nearest point of an interval; what is not a number stays as it is. -/
def clamp (low high x : Float) : Float :=
  let raised := if x < low then low else x
  if high < raised then high else raised

/-- A key for the total order of binary64 numbers: negative zero comes before positive zero, and
what is not a number comes last. -/
def orderKey (x : Float) : UInt64 :=
  let bits := x.toBits
  if bits < 0x8000000000000000 then bits ||| 0x8000000000000000 else ~~~bits

end Animatic.Number
