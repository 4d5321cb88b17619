/-!
# UTF-16

* `units`: the units of a byte sequence, in either byte order;
* `decode?`: the text of a byte sequence, if every unit belongs to a code point.
-/

namespace Wandika.Text.Utf16

/-- The order of the two bytes of a unit. -/
inductive ByteOrder
  | low
  | high
  deriving DecidableEq

/-- The units of a byte sequence. -/
def units? (order : ByteOrder) : List UInt8 → Option (List Nat)
  | [] => some []
  | [_] => none
  | a :: b :: rest =>
      let unit := if order = .low then a.toNat + 256 * b.toNat else 256 * a.toNat + b.toNat
      (units? order rest).map (unit :: ·)

/-- The code points of units: a high surrogate and a low one after it make one together. -/
def ofUnits? : List Nat → Option (List Char)
  | [] => some []
  | [u] => if u.isValidChar then some [Char.ofNat u] else none
  | u :: v :: rest =>
      if u.isValidChar then (ofUnits? (v :: rest)).map (Char.ofNat u :: ·)
      else if 0xD800 ≤ u ∧ u < 0xDC00 ∧ 0xDC00 ≤ v ∧ v < 0xE000 then
        (ofUnits? rest).map (Char.ofNat (0x10000 + (u - 0xD800) * 0x400 + (v - 0xDC00)) :: ·)
      else none

/-- The text of a byte sequence, if every unit belongs to a code point. -/
def decode? (order : ByteOrder) (bytes : List UInt8) : Option (List Char) :=
  (units? order bytes).bind ofUnits?

end Wandika.Text.Utf16
