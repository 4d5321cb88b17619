import Wandika.Text.CodeRange

/-!
# White space

* `isBlank`: the characters with the property White_Space (Unicode 15.0);
* `trim`: a text without the white space at its two ends.
-/

namespace Wandika.Text

/-- The white space outside ASCII, as first and last code points of ascending ranges. -/
def blankRanges : List CodeRange :=
  ranges [
    0x85, 0x85, 0xA0, 0xA0, 0x1680, 0x1680, 0x2000, 0x200A, 0x2028, 0x2029, 0x202F, 0x202F,
    0x205F, 0x205F, 0x3000, 0x3000]

/-- A character of white space. -/
def isBlank (c : Char) : Bool :=
  if c.toNat < 0x80 then c == ' ' || (0x09 ≤ c.toNat && c.toNat ≤ 0x0D)
  else inRanges blankRanges c.toNat

/-- The characters of a list without the white space at its two ends. -/
def trimList (cs : List Char) : List Char :=
  ((cs.dropWhile isBlank).reverse.dropWhile isBlank).reverse

/-- A text without the white space at its two ends. -/
def trim (s : String) : String :=
  String.ofList (trimList s.toList)

end Wandika.Text
