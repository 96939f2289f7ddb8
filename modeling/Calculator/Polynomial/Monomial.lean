/-!
# Monomials

A monomial is a coefficient times powers of unknowns. In a packed monomial every unknown stands
once, none has the exponent zero, and the unknowns are in the order of their symbols.
Coefficients and exponents may be of different types.
-/

namespace Calculator

/-- The product of `coefficient` and of every listed unknown to its exponent. -/
structure Monomial (R E : Type) where
  coefficient : R
  powers : List (Char × E)
deriving BEq, DecidableEq, Repr

namespace Monomial

variable {R E : Type}

/-- Multiplies a list of powers by one more: its exponent is added to that of its unknown, or it
goes to the end if its unknown is not listed yet. -/
def addPower [Add E] (powers : List (Char × E)) (power : Char × E) : List (Char × E) :=
  match powers with
  | [] => [power]
  | p :: ps =>
    if p.1 = power.1 then (p.1, p.2 + power.2) :: ps else p :: addPower ps power

/-- The packed form of a list of powers: each unknown once, without exponents of zero, in the
order of the symbols. -/
def packPowers [Add E] [Zero E] [BEq E] (powers : List (Char × E)) : List (Char × E) :=
  ((powers.foldl addPower []).filter fun p => p.2 != 0).mergeSort fun p q => p.1 ≤ q.1

/-- The packed monomial of a coefficient and any list of powers. -/
def ofPowers [Add E] [Zero E] [BEq E] (coefficient : R) (powers : List (Char × E)) :
    Monomial R E :=
  ⟨coefficient, packPowers powers⟩

/-- The monomial without unknowns. -/
def constant (value : R) : Monomial R E :=
  ⟨value, []⟩

/-- The monomial that is an unknown. -/
def unknown [One R] [One E] (symbol : Char) : Monomial R E :=
  ⟨1, [(symbol, 1)]⟩

/-- Whether the monomial has no unknowns. -/
def isConstant (m : Monomial R E) : Bool :=
  m.powers.isEmpty

/-- Whether two monomials have the same unknowns with the same exponents, so that their sum is a
monomial again. -/
def sameUnknowns [BEq E] (m n : Monomial R E) : Bool :=
  m.powers == n.powers

/-- The same unknowns with another coefficient. -/
def withCoefficient (m : Monomial R E) (coefficient : R) : Monomial R E :=
  { m with coefficient }

/-- The negated monomial. -/
def negate [Neg R] (m : Monomial R E) : Monomial R E :=
  m.withCoefficient (-m.coefficient)

/-- The product of two monomials. -/
def mul [Mul R] [Add E] [Zero E] [BEq E] (m n : Monomial R E) : Monomial R E :=
  ofPowers (m.coefficient * n.coefficient) (m.powers ++ n.powers)

/-- One divided by the monomial. -/
def reciprocal [One R] [Div R] [Neg E] (m : Monomial R E) : Monomial R E :=
  ⟨1 / m.coefficient, m.powers.map fun p => (p.1, -p.2)⟩

/-- The order of two lists of powers: by the first symbol, then by the first exponent with the
greater one first, then by what follows, a list that ends being first. -/
def comparePowers [Ord E] : List (Char × E) → List (Char × E) → Ordering
  | [], [] => .eq
  | [], _ :: _ => .lt
  | _ :: _, [] => .gt
  | p :: ps, q :: qs =>
    ((compare p.1 q.1).then (compare q.2 p.2)).then (comparePowers ps qs)

/-- The order of the monomials in a polynomial: by their powers, constants last. -/
def canonicalOrder [Ord E] (m n : Monomial R E) : Ordering :=
  match m.powers, n.powers with
  | [], [] => .eq
  | [], _ :: _ => .gt
  | _ :: _, [] => .lt
  | ps, qs => comparePowers ps qs

end Monomial

end Calculator
