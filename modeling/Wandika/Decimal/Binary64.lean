/-!
# Binary floating-point numbers of 64 bits

The numbers of the language are doubles. Arithmetic is the machine's; reading and writing them is
exact integer arithmetic on their parts.

* `Parts`: not a number, an infinity, or `± mantissa · 2 ^ exponent`;
* `parts`: the parts of a double; `ofParts` puts them together;
* `nearest`: the double nearest to a quotient of natural numbers, a half going to the even
  mantissa;
* `remainder`: the remainder of a division that rounds towards zero.
-/

namespace Wandika.Decimal

/-- What a double stands for. -/
inductive Parts
  | nan
  | infinite (negative : Bool)
  | finite (negative : Bool) (mantissa : Nat) (exponent : Int)
  deriving DecidableEq

/-- The exponent of the last bit of the smallest doubles. -/
def leastExponent : Int := -1074

/-- The parts of a double. -/
def parts (x : Float) : Parts :=
  let bits : Nat := x.toBits.toNat
  let negative : Bool := Nat.pow 2 63 ≤ bits
  let biased : Nat := bits / Nat.pow 2 52 % Nat.pow 2 11
  let fraction : Nat := bits % Nat.pow 2 52
  if biased = 2047 then
    if fraction = 0 then .infinite negative else .nan
  else if biased = 0 then .finite negative fraction leastExponent
  else .finite negative (Nat.pow 2 52 + fraction) ((biased : Int) - 1 + leastExponent)

/-- The bits of `mantissa · 2 ^ exponent`, for a mantissa of at most 53 bits that is normalised or
has the least exponent. A value beyond the largest double gives infinity. -/
def magnitudeBits (mantissa : Nat) (exponent : Int) : Nat :=
  min ((exponent - leastExponent).toNat * Nat.pow 2 52 + mantissa) (2047 * Nat.pow 2 52)

/-- The double with the given sign, mantissa and exponent. -/
def ofParts (negative : Bool) (mantissa : Nat) (exponent : Int) : Float :=
  let sign := if negative then Nat.pow 2 63 else 0
  Float.ofBits (sign + magnitudeBits mantissa exponent).toUInt64

/-- A quotient rounded to the nearest natural number, a half to the even one. -/
def roundDiv (num den : Nat) : Nat :=
  let quotient := num / den
  let twice := 2 * (num % den)
  if twice < den then quotient
  else if den < twice then quotient + 1
  else quotient + quotient % 2

/-- Numerator and denominator scaled so that their quotient is counted in units of `2 ^ e`. -/
def scaleBy (e : Int) (num den : Nat) : Nat × Nat :=
  if 0 ≤ e then (num, den * Nat.pow 2 e.toNat) else (num * Nat.pow 2 (-e).toNat, den)

/-- Mantissa and exponent of the double nearest to `num / den`, for positive numbers. -/
def nearestParts (num den : Nat) : Nat × Int :=
  let guess : Int := (num.log2 : Int) - den.log2 - 53
  let low := max guess leastExponent
  let (n, d) := scaleBy low num den
  let exponent := if Nat.pow 2 53 ≤ n / d then low + 1 else low
  let (n, d) := scaleBy exponent num den
  (roundDiv n d, exponent)

/-- The double nearest to `num / den`, with a sign. -/
def nearest (negative : Bool) (num den : Nat) : Float :=
  if num = 0 then ofParts negative 0 leastExponent
  else
    let (mantissa, exponent) := nearestParts num den
    ofParts negative mantissa exponent

/-- Not a number. -/
def nan : Float := 0.0 / 0.0

/-- Positive or negative infinity. -/
def infinity (negative : Bool) : Float :=
  if negative then -1.0 / 0.0 else 1.0 / 0.0

/-- The remainder of `x / y` when the quotient is rounded towards zero. It has the sign of `x` and
is exact. -/
def remainder (x y : Float) : Float :=
  match parts x, parts y with
  | .finite negative m e, .finite _ n f =>
      if n = 0 then nan
      else
        let low := min e f
        let r := (m * Nat.pow 2 (e - low).toNat) % (n * Nat.pow 2 (f - low).toNat)
        if 0 ≤ low then nearest negative (r * Nat.pow 2 low.toNat) 1
        else nearest negative r (Nat.pow 2 (-low).toNat)
  | .finite _ _ _, .infinite _ => x
  | _, _ => nan

end Wandika.Decimal
