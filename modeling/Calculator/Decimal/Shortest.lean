import Calculator.Decimal.Basic

/-!
# The shortest decimal of a double

A double is written with the fewest digits that read back to it, and of those decimals with the
nearest one. The decimals of `n` digits near a number form a grid; the number lies between two
neighbours on it, and if any point of the grid reads back to the number, so does one of the two.
-/

namespace Calculator

open Float.Model (UnpackedFloat)

namespace Decimal

/-- How many digits the whole part of `mantissa * 2 ^ exponent` has; zero or less counts the zeros
after the point of a number below one. -/
def magnitude (mantissa : Nat) (exponent : Int) : Int :=
  let numerator := mantissa * Nat.pow 2 exponent.toNat
  let denominator := Nat.pow 2 (-exponent).toNat
  if denominator ≤ numerator then (digitsOf (numerator / denominator)).length
  else 1 - ((digitsOf ((denominator - 1) / numerator)).length : Int)

/-- The distance from `4 * mantissa` down to the midpoint below the double, in quarters of its
unit. It is halved at a power of two, where the doubles below lie twice as close. -/
def lowerGap (mantissa : Nat) (exponent : Int) : Nat :=
  if mantissa = Nat.pow 2 52 ∧ -1074 < exponent then 1 else 2

/-- The multiple of `10 ^ grid` nearest to the double among its two neighbours on that grid that
read back to it, a tie going upward. The ends of the interval read back if the mantissa is even. -/
def nearestOnGrid? (mantissa : Nat) (exponent grid : Int) : Option Nat :=
  let unit := Nat.pow 10 grid.toNat * Nat.pow 2 (2 - exponent).toNat
  let scale := Nat.pow 2 (exponent - 2).toNat * Nat.pow 10 (-grid).toNat
  let value := 4 * mantissa * scale
  let low := (4 * mantissa - lowerGap mantissa exponent) * scale
  let high := (4 * mantissa + 2) * scale
  let readsBack (n : Nat) : Bool :=
    if mantissa % 2 = 0 then low ≤ n * unit && n * unit ≤ high
    else low < n * unit && n * unit < high
  let below := value / unit
  match readsBack below, readsBack (below + 1) with
  | true, true => if 2 * (value - below * unit) < unit then some below else some (below + 1)
  | true, false => some below
  | false, true => some (below + 1)
  | false, false => none

/-- Moves the zeros at the end of the coefficient into the exponent, at most `limit` of them. -/
def dropZeros : (limit : Nat) → Nat → Int → Nat × Int
  | 0, n, exponent => (n, exponent)
  | limit + 1, n, exponent =>
    if n ≠ 0 ∧ n % 10 = 0 then dropZeros limit (n / 10) (exponent + 1) else (n, exponent)

/-- The shortest decimal of the positive double `mantissa * 2 ^ exponent`: seventeen digits are
always enough. -/
def shortest (negative : Bool) (mantissa : Nat) (exponent : Int) : Decimal :=
  let whole := magnitude mantissa exponent
  let found := (List.range' 1 17).findSome? fun (digits : Nat) =>
    let grid := whole - digits
    (nearestOnGrid? mantissa exponent grid).map fun n => (n, grid)
  let (n, grid) := found.getD (0, 0)
  let (coefficient, power) := dropZeros 17 n grid
  ⟨negative, coefficient, power⟩

end Decimal

/-- The text of a double: the positional text of its shortest decimal, or a word for infinity and
for the undefined value. Zero keeps its sign. -/
def numberText (x : Float) : List Char :=
  match x.toModel.unpack with
  | .notANumber => "NaN".toList
  | .infinity .positive => "inf".toList
  | .infinity .negative => "-inf".toList
  | .zero .positive => ['0']
  | .zero .negative => ['-', '0']
  | .finite sign mantissa exponent _ =>
    (Decimal.shortest (sign == .negative) mantissa exponent).text

end Calculator
