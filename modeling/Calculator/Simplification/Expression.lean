import Calculator.Simplification.Operator

/-!
# Simplification of expressions

An expression is simplified from the leaves up: every operation whose simplified operands are
polynomials is folded if its result is a polynomial. Function calls are never folded.
-/

namespace Calculator.Expression

variable {K : Type} [Scalar K]

mutual

/-- Simplifies an expression that stands `depth` levels below the root. -/
def simplifyAt (depth : Nat) (e : Expression K) : Except (EvalError K) (Expression K) :=
  if depthLimit < depth then .error .tooDeep
  else
    match e with
    | value p => .ok (value p)
    | call f args => do
      let simplified ← simplifyArgs (depth + 1) args
      .ok (call f simplified)
    | operation op left right => do
      let l ← simplifyOperand (depth + 1) left
      let r ← simplifyOperand (depth + 1) right
      .ok (op.combine l r)

/-- Simplifies a list of arguments. -/
def simplifyArgs (depth : Nat) :
    List (Expression K) → Except (EvalError K) (List (Expression K))
  | [] => .ok []
  | e :: es => do
    let s ← e.simplifyAt depth
    let ss ← simplifyArgs depth es
    .ok (s :: ss)

/-- Simplifies an operand. -/
def simplifyOperand (depth : Nat) :
    Option (Expression K) → Except (EvalError K) (Option (Expression K))
  | none => .ok none
  | some e => do
    let s ← e.simplifyAt depth
    .ok (some s)

end

/-- Simplifies an expression toward a sum of monomials. -/
def simplify (e : Expression K) : Except (EvalError K) (Expression K) :=
  e.simplifyAt 0

end Calculator.Expression
