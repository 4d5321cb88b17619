/-!
# Code points in hexadecimal digits

* `hexDigit?`: the value of a digit;
* `codePoint?`: the character whose code point is written at the front of a text.
-/

namespace Wandika.Text

/-- The value of a hexadecimal digit. -/
def hexDigit? (c : Char) : Option Nat :=
  if '0' ≤ c ∧ c ≤ '9' then some (c.toNat - '0'.toNat)
  else if 'a' ≤ c ∧ c ≤ 'f' then some (c.toNat - 'a'.toNat + 10)
  else if 'A' ≤ c ∧ c ≤ 'F' then some (c.toNat - 'A'.toNat + 10)
  else none

/-- The character with a code point in hexadecimal digits, `count` of them, and what follows. -/
def codePoint? (count : Nat) (cs : List Char) : Option (Char × List Char) :=
  if cs.length < count then none
  else
    ((cs.take count).foldlM (fun n c => (hexDigit? c).map (16 * n + ·)) 0).bind fun n =>
      if n.isValidChar then some (Char.ofNat n, cs.drop count) else none

end Wandika.Text
