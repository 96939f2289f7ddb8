import Calculator.Polynomial.Basic
import Calculator.Scalar

/-!
# Powers and substitution

Operations on polynomials that raise to a power, for which coefficients and exponents are scalars
of one type.
-/

namespace Calculator

variable {K : Type} [Scalar K]

namespace Monomial

/-- The monomial to a scalar power. -/
def pow (m : Monomial K K) (exponent : K) : Monomial K K :=
  ofPowers (Primitives.pow m.coefficient exponent)
    (m.powers.map fun p => (p.1, p.2 * exponent))

/-- Puts a value in place of an unknown, as a factor of the coefficient. -/
def substitute (m : Monomial K K) (symbol : Char) (value : K) : Monomial K K :=
  let coefficient := m.powers.foldl
    (fun product p => if p.1 = symbol then product * Primitives.pow value p.2 else product)
    m.coefficient
  ⟨coefficient, m.powers.filter fun p => p.1 ≠ symbol⟩

end Monomial

namespace Polynomial

/-- The power of a polynomial of at most one monomial by a constant exponent. -/
def pow (base exponent : Polynomial K K) : Option (Polynomial K K) :=
  match exponent.constant?, base.monomials with
  | some k, [] => some (ofMonomials [(Monomial.constant 0).pow k])
  | some k, [m] => some (ofMonomials [m.pow k])
  | _, _ => none

/-- Puts a value in place of an unknown. -/
def substitute (p : Polynomial K K) (symbol : Char) (value : K) : Polynomial K K :=
  ofMonomials (p.monomials.map (·.substitute symbol value))

end Polynomial

end Calculator
