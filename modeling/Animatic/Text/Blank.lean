/-!
# White space and letter case

White space is the Unicode property of that name. Letter case is folded for the ASCII letters alone,
so names that differ in another letter's case stay different.
-/

namespace Animatic.Text

/-- The Unicode property White_Space. -/
def isBlank (c : Char) : Bool :=
  let n := c.toNat
  (0x9 ≤ n && n ≤ 0xd) || n == 0x20 || n == 0x85 || n == 0xa0 || n == 0x1680 ||
    (0x2000 ≤ n && n ≤ 0x200a) || n == 0x2028 || n == 0x2029 || n == 0x202f || n == 0x205f ||
    n == 0x3000

/-- A text without the white space at its two ends. -/
def trim (text : List Char) : List Char :=
  ((text.dropWhile isBlank).reverse.dropWhile isBlank).reverse

/-- A name with its ASCII letters in lower case. -/
def lower (name : String) : String := String.ofList (name.toList.map Char.toLower)

/-- Whether two names are equal when the case of ASCII letters is ignored. -/
def sameIgnoringCase (a b : String) : Bool := lower a == lower b

end Animatic.Text
