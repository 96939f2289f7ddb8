import Calculator.Evaluation.Error
import Calculator.Polynomial.Power

/-!
# Assignments and values of polynomials

An assignment gives values to some of the unknowns. A polynomial has a value under an assignment
that gives one to each of its unknowns.
-/

namespace Calculator

/-- The values of the unknowns; an unknown without one is unbound. -/
abbrev Assignment (K : Type) := Char → Option K

namespace Assignment

/-- The assignment that gives no values. -/
def empty {K : Type} : Assignment K :=
  fun _ => none

/-- Binds an unknown to a value, in place of the value that it had. -/
def bind {K : Type} (b : Assignment K) (symbol : Char) (value : K) : Assignment K :=
  fun c => if c = symbol then some value else b c

/-- The assignment of a list of unknowns with their values, a later one in place of an earlier. -/
def ofList {K : Type} (pairs : List (Char × K)) : Assignment K :=
  pairs.foldl (fun b pair => b.bind pair.1 pair.2) empty

end Assignment

variable {K : Type} [Scalar K]

/-- The value of a monomial: its coefficient times the powers of the values of its unknowns. -/
def Monomial.evaluate (b : Assignment K) (m : Monomial K K) : Except (EvalError K) K :=
  m.powers.foldlM (fun product p =>
    match b p.1 with
    | some x => .ok (product * Primitives.pow x p.2)
    | none => .error (.unbound p.1)) m.coefficient

/-- The value of a polynomial: the sum of the values of its monomials, from zero on. -/
def Polynomial.evaluate (b : Assignment K) (p : Polynomial K K) : Except (EvalError K) K :=
  p.monomials.foldlM (fun sum m => do
    let x ← m.evaluate b
    .ok (sum + x)) 0

end Calculator
