import Wandika.Decimal.Shortest

/-!
# How numbers are written

The digits of a number are the shortest that read back. A `Layout` says for which sizes they are
written positionally; otherwise they are written with an exponent of at least two digits.
-/

namespace Wandika.Decimal

/-- Which numbers are written without an exponent, by the exponent of their first digit. -/
structure Layout where
  positional : Int → Bool

/-- The digits written out with a decimal point where one is needed. -/
def Digits.positional (d : Digits) : List Char :=
  let n := d.digits.length
  if d.point ≤ 0 then '0' :: '.' :: (List.replicate (-d.point).toNat '0' ++ d.digits)
  else if n ≤ d.point.toNat then d.digits ++ List.replicate (d.point.toNat - n) '0'
  else d.digits.take d.point.toNat ++ '.' :: d.digits.drop d.point.toNat

/-- A signed exponent of at least two digits. -/
def exponentText (e : Int) : List Char :=
  let ds := Nat.toDigits 10 e.natAbs
  (if e < 0 then '-' else '+') :: (List.replicate (2 - ds.length) '0' ++ ds)

/-- One digit, the others after a point, and the exponent. -/
def Digits.scientific (d : Digits) : List Char :=
  let mantissa := match d.digits with
    | [] => ['0']
    | [c] => [c]
    | c :: rest => c :: '.' :: rest
  mantissa ++ 'e' :: exponentText (d.point - 1)

/-- The text of a double in a layout. -/
def Layout.render (l : Layout) (x : Float) : String :=
  match parts x with
  | .nan => "NaN"
  | .infinite negative => if negative then "-Inf" else "+Inf"
  | .finite negative mantissa exponent =>
      let body :=
        if mantissa = 0 then ['0']
        else
          let d := shortest mantissa exponent
          if l.positional (d.point - 1) then d.positional else d.scientific
      String.ofList (if negative then '-' :: body else body)

/-- Never an exponent. -/
def plain : Layout := ⟨fun _ => true⟩

/-- An exponent for numbers from a million upwards and below a ten-thousandth. -/
def compact : Layout := ⟨fun x => -4 ≤ x && x < 6⟩

end Wandika.Decimal
