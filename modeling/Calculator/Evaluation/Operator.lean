import Calculator.Evaluation.Error
import Calculator.Operator
import Calculator.Scalar

/-!
# Values of operators

What each operator computes from the values of its operands.
-/

namespace Calculator

variable {K : Type} [Scalar K]

/-- The value of the operator at two scalars; an absent operand counts as zero. -/
def Operator.apply : Operator → K → K → Except (EvalError K) K
  | add, l, r => .ok (l + r)
  | sub, l, r => .ok (l - r)
  | mul, l, r => .ok (l * r)
  | div, l, r => if r == 0 then .error .divisionByZero else .ok (l / r)
  | pow, l, r => .ok (Primitives.pow l r)
  | mod, l, r => if r == 0 then .error .moduloByZero else .ok (Primitives.modulo l r)
  | factorial, l, _ =>
    if Primitives.isNatural l then .ok (Primitives.factorial l) else .error (.notNatural l)

end Calculator
