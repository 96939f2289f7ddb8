import Calculator.Polynomial.Monomial

/-!
# Polynomials

A polynomial is a sum of monomials. In a packed polynomial no two monomials have the same
unknowns, no coefficient is zero, and the monomials are in canonical order; the zero polynomial
has no monomials. Every operation packs its result.
-/

namespace Calculator

/-- A sum of monomials. -/
structure Polynomial (R E : Type) where
  monomials : List (Monomial R E)
deriving BEq, DecidableEq, Repr

namespace Polynomial

variable {R E : Type}

/-- Adds a monomial to a list of them: its coefficient is added to that of the first monomial with
the same unknowns, or it goes to the end if there is none. -/
def addMonomial [Add R] [BEq E] (monomials : List (Monomial R E)) (monomial : Monomial R E) :
    List (Monomial R E) :=
  match monomials with
  | [] => [monomial]
  | m :: ms =>
    if m.sameUnknowns monomial then
      m.withCoefficient (m.coefficient + monomial.coefficient) :: ms
    else m :: addMonomial ms monomial

/-- The packed sum of any list of monomials. -/
def ofMonomials [Add R] [Zero R] [BEq R] [BEq E] [Ord E] (monomials : List (Monomial R E)) :
    Polynomial R E :=
  ⟨((monomials.foldl addMonomial []).filter fun m => m.coefficient != 0).mergeSort
    fun m n => (m.canonicalOrder n).isLE⟩

/-- The zero polynomial. -/
def zero : Polynomial R E :=
  ⟨[]⟩

/-- The polynomial without unknowns. -/
def constant [Add R] [Zero R] [BEq R] [BEq E] [Ord E] (value : R) : Polynomial R E :=
  ofMonomials [.constant value]

/-- The polynomial that is an unknown. -/
def unknown [Add R] [Zero R] [One R] [One E] [BEq R] [BEq E] [Ord E] (symbol : Char) :
    Polynomial R E :=
  ofMonomials [.unknown symbol]

/-- The number of monomials. -/
def size (p : Polynomial R E) : Nat :=
  p.monomials.length

/-- Whether the polynomial has no monomials. -/
def isZero (p : Polynomial R E) : Bool :=
  p.monomials.isEmpty

/-- The value of a polynomial without unknowns. -/
def constant? [Zero R] (p : Polynomial R E) : Option R :=
  match p.monomials with
  | [] => some 0
  | [m] => if m.isConstant then some m.coefficient else none
  | _ => none

/-- The first monomial with the unknowns of a given one. -/
def find? [BEq E] (p : Polynomial R E) (monomial : Monomial R E) : Option (Monomial R E) :=
  p.monomials.find? (·.sameUnknowns monomial)

/-- The unknowns in stored order, as often as they stand. -/
def unknowns (p : Polynomial R E) : List Char :=
  p.monomials.flatMap fun m => m.powers.map (·.1)

section Ring

variable [Add R] [Zero R] [BEq R] [BEq E] [Ord E]

/-- The sum of two polynomials. -/
def add (p q : Polynomial R E) : Polynomial R E :=
  ofMonomials (p.monomials ++ q.monomials)

/-- The difference of two polynomials. -/
def sub [Neg R] (p q : Polynomial R E) : Polynomial R E :=
  ofMonomials (p.monomials ++ q.monomials.map .negate)

/-- The product of two polynomials: the sum of all products of a left and a right monomial. -/
def mul [Mul R] [Add E] [Zero E] (p q : Polynomial R E) : Polynomial R E :=
  ofMonomials (p.monomials.flatMap fun m => q.monomials.map fun n => m.mul n)

end Ring

section Division

variable [Div R] [BEq R] [BEq E]

/-- The ratio of the coefficients of `p` to those of the listed monomials, if each of them has
its unknowns in `p` and all ratios equal the first one, which may be given. -/
def commonRatio? (p : Polynomial R E) (ratio : Option R) : List (Monomial R E) → Option R
  | [] => ratio
  | n :: ns =>
    match p.find? n with
    | none => none
    | some m =>
      let r := m.coefficient / n.coefficient
      match ratio with
      | none => commonRatio? p (some r) ns
      | some previous => if previous == r then commonRatio? p (some r) ns else none

/-- The quotient of two polynomials where it is a polynomial for one of two reasons: the divisor
is one monomial, or it has as many monomials as the dividend and a constant ratio to it. -/
def div [Add R] [Zero R] [One R] [Mul R] [Ord E] [Add E] [Zero E] [Neg E]
    (p q : Polynomial R E) : Option (Polynomial R E) :=
  match q.monomials with
  | [single] => some (p.mul ⟨[single.reciprocal]⟩)
  | _ =>
    if q.isZero || q.size != p.size then none
    else (commonRatio? p none q.monomials).map constant

end Division

end Polynomial

end Calculator
