import Calculator.NamedFunction
import Calculator.Decimal.Shortest

/-!
# Failures of evaluation

The reasons for which an expression has no value.
-/

namespace Calculator

/-- The number of nesting levels below the root that evaluation goes down to. -/
def depthLimit : Nat := 1024

/-- Why an expression over scalars of type `K` has no value. -/
inductive EvalError (K : Type)
  /-- A function was given the wrong number of arguments. -/
  | arity (function : NamedFunction) (found : Nat)
  /-- A function is not defined at an argument. -/
  | outsideDomain (function : NamedFunction) (argument : K)
  /-- The factorial of something that is no natural number. -/
  | notNatural (argument : K)
  | divisionByZero
  | moduloByZero
  /-- An unknown has no value. -/
  | unbound (symbol : Char)
  /-- The expression is nested deeper than the depth limit. -/
  | tooDeep
deriving DecidableEq, Repr

/-- The message of a failure to parse or to evaluate for being nested deeper than `limit`. -/
def nestingMessage (limit : Nat) : String :=
  s!"expression nesting exceeds the depth limit of {limit}"

namespace EvalError

/-- The message for the user. -/
def message : EvalError Float → String
  | arity f found =>
    let expected := f.arity
    let name := f.name
    s!"{name} function takes {expected} argument(s), {found} given"
  | outsideDomain f x =>
    let name := f.name
    let text := String.ofList (numberText x)
    s!"cannot evaluate {name} for invalid argument {text}"
  | notNatural x =>
    let text := String.ofList (numberText x)
    s!"cannot evaluate factorial for invalid argument {text}"
  | divisionByZero => "cannot perform a division by 0"
  | moduloByZero => "cannot perform a modulo by 0"
  | unbound c => s!"cannot evaluate an expression missing unknown '{c}'"
  | tooDeep => nestingMessage depthLimit

end EvalError

end Calculator
