/-!
# Scalars

The numbers that expressions are made of. Everything above this module is written for any type of
scalars: doubles when the calculator runs, an exact field when a law is stated.
-/

namespace Calculator

/-- The operations on scalars beyond the four of arithmetic, and the conditions they are applied
under. -/
class Primitives (K : Type) where
  /-- The power with any scalar as exponent. -/
  pow : K → K → K
  /-- The residue of a division. -/
  modulo : K → K → K
  /-- Whether a scalar is a natural number. -/
  isNatural : K → Bool
  /-- The factorial of a natural number. -/
  factorial : K → K
  /-- Whether a scalar is zero or below. -/
  isNonpositive : K → Bool
  sin : K → K
  cos : K → K
  /-- The natural logarithm of a positive scalar. -/
  ln : K → K

/-- Scalars: the four operations, an equality test, an order, and the primitives. -/
class Scalar (K : Type) extends
  Add K, Sub K, Mul K, Div K, Neg K, Zero K, One K, BEq K, Ord K, Primitives K

/-- The power of a scalar by repeated squaring, multiplied onto `result`. The order of the
multiplications is part of the definition, since it decides how doubles are rounded. -/
def powerOnto {K : Type} [Mul K] (result base : K) (n : Nat) : K :=
  let result' := if n % 2 = 1 then result * base else result
  if h : n / 2 = 0 then result' else powerOnto result' (base * base) (n / 2)
termination_by n

/-- The power of a scalar with a whole exponent; a negative one inverts the positive power. -/
def power {K : Type} [Mul K] [Div K] [One K] (base : K) (n : Int) : K :=
  if n < 0 then 1 / powerOnto 1 base n.natAbs else powerOnto 1 base n.natAbs

/-- The logarithm of a positive scalar to a base, as the quotient of the natural logarithms. -/
def logarithm {K : Type} [Div K] [Primitives K] (x base : K) : K :=
  Primitives.ln x / Primitives.ln base

end Calculator
