import Wandika.Text.CodeRange

/-!
# Control characters

The characters of general category C: control, format and private-use characters
(Unicode 15.0). Code points that are not assigned do not count.
-/

namespace Wandika.Text

/-- The characters of category C outside ASCII, as first and last code points of ascending
ranges. -/
def controlRanges : List CodeRange :=
  ranges [
    0x80, 0x9F, 0xAD, 0xAD, 0x600, 0x605, 0x61C, 0x61C, 0x6DD, 0x6DD, 0x70F, 0x70F, 0x890, 0x891,
    0x8E2, 0x8E2, 0x180E, 0x180E, 0x200B, 0x200F, 0x202A, 0x202E, 0x2060, 0x2064, 0x2066, 0x206F,
    0xE000, 0xF8FF, 0xFEFF, 0xFEFF, 0xFFF9, 0xFFFB, 0x110BD, 0x110BD, 0x110CD, 0x110CD,
    0x13430, 0x1343F, 0x1BCA0, 0x1BCA3, 0x1D173, 0x1D17A, 0xE0001, 0xE0001, 0xE0020, 0xE007F,
    0xF0000, 0xFFFFD, 0x100000, 0x10FFFD]

/-- A control, format or private-use character. -/
def isControl (c : Char) : Bool :=
  if c.toNat < 0x80 then c.toNat < 0x20 || c.toNat = 0x7F
  else inRanges controlRanges c.toNat

end Wandika.Text
