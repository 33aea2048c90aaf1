import Animatic.Number.Shortest

/-!
# Number texts

Two layouts write the shortest decimal of a number. The plain one is always positional and leaves a
whole number without a point; the detailed one marks a whole number with `.0` and turns to an
exponent for very large and very small numbers. `fixed` writes a given number of places, rounding
the exact value with a half going to the even neighbour.
-/

namespace Animatic.Number

open Float.Model (Format UnpackedFloat)

/-- How a decimal is laid out. -/
structure Layout where
  /-- What follows the digits of a whole number. -/
  wholeSuffix : String
  /-- Numbers whose leading digit stands at this power of ten or above take an exponent. -/
  exponentFrom : Option Int
  /-- Numbers whose leading digit stands below this power of ten take an exponent. -/
  exponentBelow : Option Int

/-- Positional digits throughout. -/
def Layout.plain : Layout := ⟨"", none, none⟩

/-- Whole numbers end in `.0`; an exponent is used from `1e16` up and below `1e-4`. -/
def Layout.detailed : Layout := ⟨".0", some 16, some (-4)⟩

/-- The text of a natural number. -/
def natText (n : Nat) : String := String.ofList (Nat.toDigits 10 n)

/-- The text of an integer. -/
def intText (n : Int) : String := if n < 0 then "-" ++ natText n.natAbs else natText n.natAbs

/-- Digits with `places` of them after the point; a number below one has one zero before it. -/
def placePoint (digits : List Char) (places : Nat) : String :=
  let padded := List.replicate (places + 1 - digits.length) '0' ++ digits
  let whole := padded.length - places
  String.ofList (padded.take whole ++ '.' :: padded.drop whole)

/-- The digits of a decimal without an exponent. -/
def Decimal.positional (wholeSuffix : String) (d : Decimal) : String :=
  let digits := Nat.toDigits 10 d.coefficient
  if 0 ≤ d.exponent then
    String.ofList (digits ++ List.replicate d.exponent.toNat '0') ++ wholeSuffix
  else placePoint digits (-d.exponent).toNat

/-- One digit, the remaining digits after a point, and the power of ten. -/
def Decimal.withExponent (d : Decimal) : String :=
  let digits := Nat.toDigits 10 d.coefficient
  let power := d.exponent + (digits.length - 1 : Nat)
  let fraction := digits.drop 1
  String.ofList (digits.take 1 ++ (if fraction.isEmpty then [] else '.' :: fraction))
    ++ "e" ++ intText power

/-- The text of a decimal in a layout. -/
def Layout.decimal (layout : Layout) (d : Decimal) : String :=
  let leading := d.exponent + ((Nat.toDigits 10 d.coefficient).length - 1 : Nat)
  if layout.exponentFrom.any (· ≤ leading) || layout.exponentBelow.any (leading < ·)
  then d.withExponent else d.positional layout.wholeSuffix

/-- The sign of a number, when it is written. -/
def signText : UnpackedFloat.Sign → String
  | .negative => "-"
  | .positive => ""

/-- The text of a number in a layout, with the digits that a format needs to read it back. -/
def Layout.text (layout : Layout) (format : Format) : UnpackedFloat → String
  | .notANumber => "NaN"
  | .infinity sign => signText sign ++ "inf"
  | .zero sign => signText sign ++ "0" ++ layout.wholeSuffix
  | .finite sign mantissa exponent _ =>
    signText sign ++ layout.decimal (shortest format mantissa exponent)

/-- The plain text of a binary64 number. -/
def plainText (x : Float) : String := Layout.plain.text .binary64 (exact x)

/-- The plain text of a binary32 number. -/
def plainText32 (x : Float32) : String := Layout.plain.text .binary32 (exact32 x)

/-- The detailed text of a binary32 number. -/
def detailedText32 (x : Float32) : String := Layout.detailed.text .binary32 (exact32 x)

/-- The whole number nearest to `numerator / denominator`, a half going to the even neighbour. -/
def roundHalfEven (numerator denominator : Nat) : Nat :=
  let down := numerator / denominator
  let twice := 2 * (numerator % denominator)
  if denominator < twice ∨ (twice = denominator ∧ down % 2 = 1) then down + 1 else down

/-- A number with exactly `places` digits after the point. -/
def fixed (places : Nat) : UnpackedFloat → String
  | .notANumber => "NaN"
  | .infinity sign => signText sign ++ "inf"
  | .zero sign => signText sign ++ placePoint ['0'] places
  | .finite sign mantissa exponent _ =>
    let units := roundHalfEven (mantissa * Nat.pow 10 places * Nat.pow 2 exponent.toNat)
      (Nat.pow 2 (-exponent).toNat)
    signText sign ++ placePoint (Nat.toDigits 10 units) places

/-- Spaces in front of a text, up to a width. -/
def padLeft (width : Nat) (text : String) : String :=
  String.ofList (List.replicate (width - text.length) ' ') ++ text

end Animatic.Number
