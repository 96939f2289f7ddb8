/-!
# Exact operations on doubles

Operations that are decided by the exact value of a double and need no rounding: whether it is a
whole number, its sign, its place in the total order of all doubles, and the remainder of a
division.
-/

namespace Calculator.Binary64

open Float.Model (UnpackedFloat)

/-- The undefined value. -/
def nan : Float := 0.0 / 0.0

/-- Positive infinity. -/
def infinity : Float := 1.0 / 0.0

/-- Whether the sign of the double is negative, as it also is of a negative zero. -/
def isNegative (x : Float) : Bool :=
  match x.toModel.unpack with
  | .notANumber => false
  | .infinity sign | .zero sign | .finite sign _ _ _ => sign == .negative

/-- The value of a double that is a whole number. -/
def integer? (x : Float) : Option Int :=
  match x.toModel.unpack with
  | .zero _ => some 0
  | .finite sign mantissa exponent _ =>
    let places := (-exponent).toNat
    if mantissa % Nat.pow 2 places = 0 then
      some (sign.apply (mantissa * Nat.pow 2 exponent.toNat / Nat.pow 2 places : Nat))
    else none
  | _ => none

/-- A key that puts the doubles into their total order: by value, a negative zero below the
positive one. -/
def orderKey (x : Float) : Int :=
  let bits := x.toBits.toNat
  if bits < Nat.pow 2 63 then bits else Int.pow 2 63 - 1 - bits

/-- The total order of doubles. -/
def totalOrder (x y : Float) : Ordering :=
  compare (orderKey x) (orderKey y)

/-- The exact remainder of the division of `x` by `y` with a whole quotient; it has the sign of
`x` and a magnitude below that of `y`. -/
def remainder (x y : Float) : Float :=
  match x.toModel.unpack, y.toModel.unpack with
  | .finite sign m e _, .finite _ m' e' _ =>
    let unit := min e e'
    let rest := (m <<< (e - unit).toNat) % (m' <<< (e' - unit).toNat)
    .ofModel (.pack (if rest = 0 then .zero sign else .round .binary64 sign rest unit))
  | .zero _, .finite .. | .zero _, .infinity _ | .finite .., .infinity _ => x
  | _, _ => nan

end Calculator.Binary64
