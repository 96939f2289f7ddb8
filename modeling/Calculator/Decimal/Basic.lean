/-!
# Decimal numbers

A decimal is a natural number of units of a power of ten, with a sign. It has a positional text,
which never shows an exponent, and a nearest double.
-/

namespace Calculator

/-- The number `coefficient * 10 ^ exponent`, negated if `negative` is set. -/
structure Decimal where
  negative : Bool
  coefficient : Nat
  exponent : Int
deriving DecidableEq, Repr

namespace Decimal

/-- The decimal digits of `n`, the leading one first; zero has the one digit `0`. -/
def digitsOf (n : Nat) : List Char :=
  Nat.toDigits 10 n

/-- The number that a list of decimal digits denotes. -/
def valueOf (digits : List Char) : Nat :=
  digits.foldl (fun n c => 10 * n + (c.toNat - 48)) 0

/-- Writes `n * 10 ^ exponent` with all its digits, and with a point if the exponent is negative. -/
def positional (n : Nat) (exponent : Int) : List Char :=
  let digits := digitsOf n
  if 0 ≤ exponent then digits ++ List.replicate exponent.toNat '0'
  else
    let places := (-exponent).toNat
    if places < digits.length then
      digits.take (digits.length - places) ++ '.' :: digits.drop (digits.length - places)
    else '0' :: '.' :: List.replicate (places - digits.length) '0' ++ digits

/-- The positional text: a minus sign if the number is negative, then its digits. -/
def text (d : Decimal) : List Char :=
  if d.negative then '-' :: positional d.coefficient d.exponent
  else positional d.coefficient d.exponent

/-- The double nearest to the number, a tie going to the even neighbour. -/
def toFloat (d : Decimal) : Float :=
  let magnitude := Float.ofScientific d.coefficient (decide (d.exponent < 0)) d.exponent.natAbs
  if d.negative then -magnitude else magnitude

end Decimal

end Calculator
