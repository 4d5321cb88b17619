import Wandika.Decimal.Binary64

/-!
# The shortest decimal of a double

Among the decimals that are read back as a given double, the one with the fewest digits, and of
those the nearest. A tie goes to the even digit.

* `Interval`: the decimals that round to a double, as bounds counted in a common unit;
* `Digits`: a decimal as `0.d₁d₂… · 10 ^ point`;
* `shortest`: the digits of a positive double.
-/

namespace Wandika.Decimal

/-- A decimal `0.d₁d₂… · 10 ^ point` without zeros at either end. -/
structure Digits where
  digits : List Char
  point : Int
  deriving DecidableEq

/-- The reals that round to `mantissa · 2 ^ exponent`: a value between two bounds, all three
counted in a quarter of the last bit. -/
structure Interval where
  low : Nat
  value : Nat
  high : Nat
  closed : Bool

/-- The interval of a double. The gap below a power of two is half as wide, and the bounds belong
to the interval exactly when the mantissa is even. -/
def interval (mantissa : Nat) (exponent : Int) : Interval where
  low := if mantissa = Nat.pow 2 52 ∧ leastExponent < exponent then 4 * mantissa - 1
    else 4 * mantissa - 2
  value := 4 * mantissa
  high := 4 * mantissa + 2
  closed := mantissa % 2 = 0

/-- Whether `candidate · unit` lies in the interval, where the bounds are multiples of `scale`. -/
def Interval.contains (i : Interval) (scale unit candidate : Nat) : Bool :=
  let x := candidate * unit
  if i.closed then i.low * scale ≤ x && x ≤ i.high * scale
  else i.low * scale < x && x < i.high * scale

/-- The multiple of `unit` in the interval that is nearest to the value, if there is one. Only the
two neighbours of the value need to be looked at. -/
def Interval.pick (i : Interval) (scale unit : Nat) : Option Nat :=
  let x := i.value * scale
  let below := x / unit
  let above := below + 1
  match i.contains scale unit below, i.contains scale unit above with
  | false, false => none
  | true, false => some below
  | false, true => some above
  | true, true =>
      let left := x - below * unit
      let right := above * unit - x
      if left < right then some below
      else if right < left then some above
      else if below % 2 = 0 then some below else some above

/-- The least `p` with `num / den < 10 ^ p`, for positive numbers. -/
def decimalPoint (num den : Nat) : Int :=
  if den ≤ num then (Nat.toDigits 10 (num / den)).length
  else
    let size := (Nat.toDigits 10 (den / num)).length
    if den = num * Nat.pow 10 (size - 1) then 2 - (size : Int) else 1 - (size : Int)

/-- Tries grids of `count`, `count + 1`, … digits, at most `fuel` of them. -/
def search (i : Interval) (exponent point : Int) : (fuel count : Nat) → Option (Nat × Nat)
  | 0, _ => none
  | fuel + 1, count =>
      -- one unit of the grid is `10 ^ (point - count)`, one quarter bit `2 ^ (exponent - 2)`
      let grid := point - count
      let quarter := exponent - 2
      let scale := Nat.pow 2 quarter.toNat * Nat.pow 10 (-grid).toNat
      let unit := Nat.pow 10 grid.toNat * Nat.pow 2 (-quarter).toNat
      match i.pick scale unit with
      | some n => some (n, count)
      | none => search i exponent point fuel (count + 1)

/-- A list without the zeros at its end. -/
def dropZeros (ds : List Char) : List Char :=
  (ds.reverse.dropWhile (· == '0')).reverse

/-- The shortest digits of the positive double `mantissa · 2 ^ exponent`. Seventeen digits tell any
two doubles apart. -/
def shortest (mantissa : Nat) (exponent : Int) : Digits :=
  let (num, den) := scaleBy (-exponent) mantissa 1
  let point := decimalPoint num den
  match search (interval mantissa exponent) exponent point 17 1 with
  | none => ⟨[], 0⟩
  | some (n, count) =>
      let ds := Nat.toDigits 10 n
      -- the upper neighbour may have one digit more than the grid
      ⟨dropZeros ds, point + ((ds.length : Int) - count)⟩

end Wandika.Decimal
