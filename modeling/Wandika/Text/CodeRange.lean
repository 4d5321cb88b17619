/-!
# Ranges of code points

A property of characters is kept as a list of closed ranges of code points.

* `CodeRange`, `CodeRange.contains`;
* `inRanges`: membership in a list of ranges.
-/

namespace Wandika.Text

/-- The code points from `first` to `last`, both included. -/
structure CodeRange where
  first : Nat
  last : Nat
  deriving DecidableEq

/-- Whether a code point lies in the range. -/
def CodeRange.contains (r : CodeRange) (n : Nat) : Bool :=
  r.first ≤ n && n ≤ r.last

/-- The ranges given by a flat list of first and last code points. -/
def ranges : List Nat → List CodeRange
  | first :: last :: rest => ⟨first, last⟩ :: ranges rest
  | _ => []

/-- Whether a code point lies in one of the ranges. -/
def inRanges (rs : List CodeRange) (n : Nat) : Bool :=
  rs.any (·.contains n)

end Wandika.Text
