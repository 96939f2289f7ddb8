import Calculator.Evaluation.Assignment
import Calculator.Evaluation.NamedFunction
import Calculator.Evaluation.Operator
import Calculator.Expression.Basic

/-!
# Values of expressions

An expression is evaluated from the leaves up, operands from left to right. An absent operand has
the value zero. Nothing below the depth limit is looked at.
-/

namespace Calculator.Expression

variable {K : Type} [Scalar K]

mutual

/-- The value of an expression that stands `depth` levels below the root. -/
def evaluateAt (b : Assignment K) (depth : Nat) (e : Expression K) : Except (EvalError K) K :=
  if depthLimit < depth then .error .tooDeep
  else
    match e with
    | value p => p.evaluate b
    | call f args => do
      let xs ← evaluateArgs b (depth + 1) args
      f.apply xs
    | operation op left right => do
      let l ← evaluateOperand b (depth + 1) left
      let r ← evaluateOperand b (depth + 1) right
      op.apply l r

/-- The values of a list of arguments. -/
def evaluateArgs (b : Assignment K) (depth : Nat) :
    List (Expression K) → Except (EvalError K) (List K)
  | [] => .ok []
  | e :: es => do
    let x ← e.evaluateAt b depth
    let xs ← evaluateArgs b depth es
    .ok (x :: xs)

/-- The value of an operand. -/
def evaluateOperand (b : Assignment K) (depth : Nat) :
    Option (Expression K) → Except (EvalError K) K
  | none => .ok 0
  | some e => e.evaluateAt b depth

end

/-- The value of an expression under an assignment. -/
def evaluate (b : Assignment K) (e : Expression K) : Except (EvalError K) K :=
  e.evaluateAt b 0

/-- The values of one expression under several assignments. -/
def evaluateBatch (e : Expression K) (bs : List (Assignment K)) :
    List (Except (EvalError K) K) :=
  bs.map fun b => e.evaluate b

end Calculator.Expression
