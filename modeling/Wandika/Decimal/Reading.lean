import Wandika.Decimal.Binary64
import Wandika.Text.Letter

/-!
# Reading decimals

* `ofDigits`: the number that a row of digits stands for;
* `readScaled`: the double nearest to `digits · 10 ^ exponent`;
* `readLiteral`: a literal, digits with an optional fraction;
* `read?`: a number text with optional sign, fraction and exponent, or a named special value.
-/

namespace Wandika.Decimal

open Wandika.Text (isDigit)

/-- The number that a row of digits stands for. -/
def ofDigits (ds : List Char) : Nat :=
  ds.foldl (fun n c => 10 * n + (c.toNat - '0'.toNat)) 0

/-- The double nearest to `digits · 10 ^ exponent`. Numbers that are too large or too small for
any double are told apart by their size before the power of ten is formed. -/
def readScaled (negative : Bool) (digits : Nat) (exponent : Int) : Float :=
  let size : Int := (Nat.toDigits 10 digits).length + exponent
  if digits = 0 ∨ size < -400 then ofParts negative 0 leastExponent
  else if 400 < size then infinity negative
  else if 0 ≤ exponent then nearest negative (digits * Nat.pow 10 exponent.toNat) 1
  else nearest negative digits (Nat.pow 10 (-exponent).toNat)

/-- The double of a whole part and a fraction. -/
def readLiteral (whole fraction : List Char) : Float :=
  readScaled false (ofDigits (whole ++ fraction)) (-(fraction.length : Int))

/-- A sign at the front, and what follows it. -/
def sign : List Char → Bool × List Char
  | '-' :: rest => (true, rest)
  | '+' :: rest => (false, rest)
  | rest => (false, rest)

/-- The exponent part of a number text, which may be missing. -/
def exponent? : List Char → Option Int
  | [] => some 0
  | mark :: rest =>
      let (negative, ds) := sign rest
      if (mark = 'e' ∨ mark = 'E') ∧ ds ≠ [] ∧ ds.all isDigit then
        let n : Int := ofDigits ds
        some (if negative then -n else n)
      else none

/-- A number text: digits with an optional point and exponent, or the name of a special value in
any case. -/
def read? (s : String) : Option Float :=
  let cs := s.toList
  let (negative, body) := sign cs
  let word := String.ofList (body.map Char.toLower)
  if word = "inf" ∨ word = "infinity" then some (infinity negative)
  else if word = "nan" ∧ body = cs then some nan
  else
    let whole := body.takeWhile isDigit
    let rest := body.dropWhile isDigit
    let (fraction, rest) := match rest with
      | '.' :: rest => (rest.takeWhile isDigit, rest.dropWhile isDigit)
      | _ => ([], rest)
    if whole = [] ∧ fraction = [] then none
    else (exponent? rest).map fun e =>
      readScaled negative (ofDigits (whole ++ fraction)) (e - fraction.length)

end Wandika.Decimal
