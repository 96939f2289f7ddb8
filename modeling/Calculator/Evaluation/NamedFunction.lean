import Calculator.Evaluation.Error
import Calculator.Scalar

/-!
# Values of named functions

A call is checked for the number of its arguments first, then for the domain of the function.
-/

namespace Calculator.NamedFunction

variable {K : Type} [Scalar K]

/-- The value of the function at a list of arguments. -/
def apply (f : NamedFunction) (args : List K) : Except (EvalError K) K :=
  match f, args with
  | cos, [x] => .ok (Primitives.cos x)
  | sin, [x] => .ok (Primitives.sin x)
  | tan, [x] =>
    let c := Primitives.cos x
    if c == 0 then .error (.outsideDomain tan x) else .ok (Primitives.sin x / c)
  | ln, [x] =>
    if Primitives.isNonpositive x then .error (.outsideDomain ln x) else .ok (Primitives.ln x)
  | log, [x, base] =>
    if Primitives.isNonpositive x then .error (.outsideDomain log x)
    else if Primitives.isNonpositive base || base == 1 then .error (.outsideDomain log base)
    else .ok (logarithm x base)
  | _, _ => .error (.arity f args.length)

end Calculator.NamedFunction
