import Calculator.Evaluation.NamedFunction
import Calculator.Evaluation.Operator
import Calculator.Expression.Basic

/-!
# Compiled expressions

Compiling an expression for a list of unknowns replaces every unknown by its position in the list,
so that the compiled form is evaluated at a list of arguments without looking a symbol up.
-/

namespace Calculator

/-- A monomial whose unknowns have become positions. The symbols are kept for error messages. -/
structure CompiledTerm (K : Type) where
  coefficient : K
  powers : List (Nat × Char × K)
deriving Repr

/-- An expression whose unknowns have become positions. -/
inductive Compiled (K : Type)
  | sum (terms : List (CompiledTerm K))
  | call (function : NamedFunction) (args : List (Compiled K))
  | operation (operator : Operator) (left right : Option (Compiled K))

variable {K : Type}

/-- Compiles a power: the position of its unknown is the first one in the list. -/
def compilePower (order : List Char) (power : Char × K) :
    Except (EvalError K) (Nat × Char × K) :=
  match order.findIdx? (· == power.1) with
  | some i => .ok (i, power.1, power.2)
  | none => .error (.unbound power.1)

/-- Compiles a monomial. -/
def Monomial.compile (order : List Char) (m : Monomial K K) :
    Except (EvalError K) (CompiledTerm K) := do
  let powers ← m.powers.mapM (compilePower order)
  .ok ⟨m.coefficient, powers⟩

namespace Expression

mutual

/-- Compiles an expression that stands `depth` levels below the root. -/
def compileAt (order : List Char) (depth : Nat) (e : Expression K) :
    Except (EvalError K) (Compiled K) :=
  if depthLimit < depth then .error .tooDeep
  else
    match e with
    | value p => do
      let terms ← p.monomials.mapM (·.compile order)
      .ok (.sum terms)
    | call f args => do
      let compiled ← compileArgs order (depth + 1) args
      .ok (.call f compiled)
    | operation op left right => do
      let l ← compileOperand order (depth + 1) left
      let r ← compileOperand order (depth + 1) right
      .ok (.operation op l r)

/-- Compiles a list of arguments. -/
def compileArgs (order : List Char) (depth : Nat) :
    List (Expression K) → Except (EvalError K) (List (Compiled K))
  | [] => .ok []
  | e :: es => do
    let c ← e.compileAt order depth
    let cs ← compileArgs order depth es
    .ok (c :: cs)

/-- Compiles an operand. -/
def compileOperand (order : List Char) (depth : Nat) :
    Option (Expression K) → Except (EvalError K) (Option (Compiled K))
  | none => .ok none
  | some e => do
    let c ← e.compileAt order depth
    .ok (some c)

end

/-- Compiles an expression for a list of unknowns: the value of the `i`-th one is read from the
`i`-th argument. -/
def compile (order : List Char) (e : Expression K) : Except (EvalError K) (Compiled K) :=
  e.compileAt order 0

end Expression

variable [Scalar K]

/-- The value of a compiled monomial at a list of arguments. A missing argument is reported as the
unknown that it stands for. -/
def CompiledTerm.evaluate (args : List K) (t : CompiledTerm K) : Except (EvalError K) K :=
  t.powers.foldlM (fun product p =>
    match args[p.1]? with
    | some x => .ok (product * Primitives.pow x p.2.2)
    | none => .error (.unbound p.2.1)) t.coefficient

namespace Compiled

mutual

/-- The value of a compiled expression at a list of arguments. -/
def evaluate (args : List K) : Compiled K → Except (EvalError K) K
  | sum terms => terms.foldlM (fun total t => do
      let x ← t.evaluate args
      .ok (total + x)) 0
  | call f compiled => do
    let xs ← evaluateArgs args compiled
    f.apply xs
  | operation op left right => do
    let l ← evaluateOperand args left
    let r ← evaluateOperand args right
    op.apply l r

/-- The values of a list of compiled arguments. -/
def evaluateArgs (args : List K) : List (Compiled K) → Except (EvalError K) (List K)
  | [] => .ok []
  | c :: cs => do
    let x ← c.evaluate args
    let xs ← evaluateArgs args cs
    .ok (x :: xs)

/-- The value of a compiled operand. -/
def evaluateOperand (args : List K) : Option (Compiled K) → Except (EvalError K) K
  | none => .ok 0
  | some c => c.evaluate args

end

end Compiled

end Calculator
