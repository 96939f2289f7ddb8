import Calculator.Evaluation.Operator
import Calculator.Expression.Basic

/-!
# Folding of operations

An operation on two polynomials folds if its result is a polynomial. The four operations of
arithmetic and the power fold by the rules of polynomials; the residue and the factorial fold only
on constants that have a value.
-/

namespace Calculator

variable {K : Type} [Scalar K]

namespace Operator

/-- The constant that the operator computes from two constants, if it has a value. -/
def foldConstants? (op : Operator) (p q : Polynomial K K) : Option (Polynomial K K) :=
  match p.constant?, q.constant? with
  | some l, some r =>
    match op.apply l r with
    | .ok x => some (.constant x)
    | .error _ => none
  | _, _ => none

/-- The polynomial that the operator makes of two polynomials, if it makes one. -/
def fold? (op : Operator) (p q : Polynomial K K) : Option (Polynomial K K) :=
  match op with
  | add => some (p.add q)
  | sub => some (p.sub q)
  | mul => some (p.mul q)
  | div => p.div q
  | pow => p.pow q
  | mod => mod.foldConstants? p q
  | factorial => factorial.foldConstants? p q

/-- The polynomial of an operand that is one; an absent operand is the zero polynomial. -/
def operandPolynomial? : Option (Expression K) → Option (Polynomial K K)
  | none => some .zero
  | some e => e.polynomial?

/-- The operation on two operands, folded into a polynomial where possible. -/
def combine (op : Operator) (left right : Option (Expression K)) : Expression K :=
  match operandPolynomial? left, operandPolynomial? right with
  | some p, some q =>
    match op.fold? p q with
    | some r => .value r
    | none => .operation op left right
  | _, _ => .operation op left right

end Operator

end Calculator
