import Calculator.Binary64.Basic
import Calculator.Scalar

/-!
# Doubles as scalars

The functions that the calculator applies to doubles, and doubles as an instance of scalars.
-/

namespace Calculator.Binary64

/-- The greatest magnitude of an exponent whose power is computed by repeated squaring. -/
def squaringLimit : Nat := 2147483647

/-- The power of a double: by repeated squaring for a whole exponent within the limit, else by the
exponential function. One has itself as every power. -/
def pow (base exponent : Float) : Float :=
  match integer? exponent with
  | some n => if n.natAbs ≤ squaringLimit then power base n else fractional
  | none => fractional
where
  /-- The power through the exponential function. -/
  fractional : Float := if base == 1 then 1 else Float.pow base exponent

/-- The residue of `x` modulo `y`: the remainder, moved up by the modulus if it is negative. -/
def modulo (x y : Float) : Float :=
  let r := remainder x y
  if r < 0 then r + y.abs else r

/-- The factorial of a natural number; beyond 170 it exceeds every double. -/
def factorial (n : Nat) : Float :=
  if 170 < n then infinity
  else (List.range' 2 (n - 1)).foldl (fun product k => product * Float.ofNat k) 1

/-- Whether a double is a whole number. -/
def isInteger (x : Float) : Bool :=
  (integer? x).isSome

/-- The natural number that a double is. -/
def natural? (x : Float) : Option Nat :=
  match integer? x with
  | some n => if 0 ≤ n then some n.toNat else none
  | none => none

/-- The first of two doubles if it is less, else the second. -/
def min (x y : Float) : Float :=
  if x < y then x else y

/-- The first of two doubles if it is greater, else the second. -/
def max (x y : Float) : Float :=
  if x > y then x else y

instance totallyOrdered : Ord Float := ⟨totalOrder⟩

instance : Scalar Float where
  pow := pow
  modulo := modulo
  isNatural x := (natural? x).isSome
  factorial x := factorial ((natural? x).getD 0)
  isNonpositive x := x ≤ 0
  sin := Float.sin
  cos := Float.cos
  ln := Float.log

end Calculator.Binary64
