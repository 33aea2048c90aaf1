import Animatic.Number.Exact

/-!
# Reading decimal texts

A number text is an optional sign followed by decimal digits with at most one point and an optional
exponent, or by `inf`, `infinity` or `nan` in any case. At least one digit stands before or after
the point. The value is rounded once, to the nearest number of the format that is asked for.
-/

namespace Animatic.Number

open Float.Model (Format UnpackedFloat)

/-- The value of a digit sequence. -/
def digitsValue (digits : List Char) : Nat :=
  digits.foldl (fun value digit => 10 * value + (digit.toNat - '0'.toNat)) 0

/-- The exponent part of a number text: nothing, or a mark, an optional sign and digits. -/
def readExponent : List Char → Option Int
  | [] => some 0
  | mark :: rest =>
    if mark = 'e' ∨ mark = 'E' then
      let (negative, digits) :=
        match rest with
        | '-' :: digits => (true, digits)
        | '+' :: digits => (false, digits)
        | digits => (false, digits)
      if digits.isEmpty || digits.any (!·.isDigit) then none
      else some (if negative then -(digitsValue digits) else digitsValue digits)
    else none

/-- An unsigned decimal. -/
def readUnsigned (format : Format) (text : List Char) : Option UnpackedFloat :=
  let whole := text.takeWhile Char.isDigit
  let afterWhole := text.dropWhile Char.isDigit
  let (fraction, afterFraction) :=
    match afterWhole with
    | '.' :: rest => (rest.takeWhile Char.isDigit, rest.dropWhile Char.isDigit)
    | rest => ([], rest)
  if whole.isEmpty && fraction.isEmpty then none
  else (readExponent afterFraction).map fun power =>
    UnpackedFloat.ofScientific format (digitsValue (whole ++ fraction)) (power - fraction.length)

/-- An unsigned number or the name of one that is not finite. -/
def readMagnitude (format : Format) (text : List Char) : Option UnpackedFloat :=
  match String.ofList (text.map Char.toLower) with
  | "inf" => some (.infinity .positive)
  | "infinity" => some (.infinity .positive)
  | "nan" => some .notANumber
  | _ => readUnsigned format text

/-- The value of a number text in a format. -/
def readExact (format : Format) : List Char → Option UnpackedFloat
  | '-' :: text => (readMagnitude format text).map UnpackedFloat.neg
  | '+' :: text => readMagnitude format text
  | text => readMagnitude format text

/-- The binary64 number that a text names. -/
def read? (text : List Char) : Option Float := (readExact .binary64 text).map (⟨.pack ·⟩)

/-- The binary32 number that a text names. -/
def read32? (text : List Char) : Option Float32 := (readExact .binary32 text).map (⟨.pack ·⟩)

end Animatic.Number
