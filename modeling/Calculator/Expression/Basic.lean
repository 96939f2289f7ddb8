import Calculator.NamedFunction
import Calculator.Operator
import Calculator.Polynomial.Power

/-!
# Expressions

An expression is a tree of operators and function calls with polynomials at its leaves. An operand
may be absent: on the left of a minus sign, and on the right of a factorial.
-/

namespace Calculator

/-- An expression over scalars of type `K`. -/
inductive Expression (K : Type)
  | value (polynomial : Polynomial K K)
  | call (function : NamedFunction) (args : List (Expression K))
  | operation (operator : Operator) (left right : Option (Expression K))

/-- What is wrong with the operands of an operator. -/
inductive OperandError
  /-- A required operand is absent. -/
  | missing (operator : Operator)
  /-- An operand stands on the right of an operator that takes none there. -/
  | unexpected (operator : Operator)
deriving DecidableEq, Repr

namespace Expression

variable {K : Type}

/-- The operation of an operator on operands that it accepts. -/
def operation? (op : Operator) (left right : Option (Expression K)) :
    Except OperandError (Expression K) :=
  if (left.isNone && op.needsLeft) || (right.isNone && op.needsRight) then .error (.missing op)
  else if right.isSome && op.isPostfix then .error (.unexpected op)
  else .ok (.operation op left right)

/-- The polynomial of an expression that is a leaf. -/
def polynomial? : Expression K → Option (Polynomial K K)
  | value p => some p
  | _ => none

mutual

/-- The unknowns of an expression from left to right, as often as they stand. -/
def symbols : Expression K → List Char
  | value p => p.unknowns
  | call _ args => symbolsOfArgs args
  | operation _ left right => symbolsOfOperand left ++ symbolsOfOperand right

/-- The unknowns of a list of arguments. -/
def symbolsOfArgs : List (Expression K) → List Char
  | [] => []
  | e :: es => e.symbols ++ symbolsOfArgs es

/-- The unknowns of an operand; an absent one has none. -/
def symbolsOfOperand : Option (Expression K) → List Char
  | none => []
  | some e => e.symbols

end

/-- Puts a character into an increasing list, unless the list has it. -/
def insertSymbol (c : Char) : List Char → List Char
  | [] => [c]
  | d :: ds => if c < d then c :: d :: ds else if c = d then d :: ds else d :: insertSymbol c ds

/-- The unknowns of an expression in increasing order, each of them once. -/
def unknowns (e : Expression K) : List Char :=
  e.symbols.foldr insertSymbol []

section Equality

variable [BEq K]

mutual

/-- Whether two expressions are the same tree with equal leaves. -/
def same : Expression K → Expression K → Bool
  | value p, value q => p == q
  | call f args, call g args' => f == g && sameArgs args args'
  | operation op l r, operation op' l' r' => op == op' && sameOperand l l' && sameOperand r r'
  | _, _ => false

/-- Whether two lists of arguments are the same. -/
def sameArgs : List (Expression K) → List (Expression K) → Bool
  | [], [] => true
  | e :: es, e' :: es' => e.same e' && sameArgs es es'
  | _, _ => false

/-- Whether two operands are the same, or both absent. -/
def sameOperand : Option (Expression K) → Option (Expression K) → Bool
  | none, none => true
  | some e, some e' => e.same e'
  | _, _ => false

end

instance : BEq (Expression K) := ⟨same⟩

end Equality

section Scalars

variable [Scalar K]

/-- The expression without unknowns. -/
def constant (x : K) : Expression K :=
  value (.constant x)

/-- The expression that is an unknown. -/
def unknown (symbol : Char) : Expression K :=
  value (.unknown symbol)

mutual

/-- Puts a value in place of an unknown. -/
def substitute (symbol : Char) (x : K) : Expression K → Expression K
  | value p => value (p.substitute symbol x)
  | call f args => call f (substituteArgs symbol x args)
  | operation op left right =>
    operation op (substituteOperand symbol x left) (substituteOperand symbol x right)

/-- Puts a value in place of an unknown in a list of arguments. -/
def substituteArgs (symbol : Char) (x : K) : List (Expression K) → List (Expression K)
  | [] => []
  | e :: es => e.substitute symbol x :: substituteArgs symbol x es

/-- Puts a value in place of an unknown in an operand. -/
def substituteOperand (symbol : Char) (x : K) : Option (Expression K) → Option (Expression K)
  | none => none
  | some e => some (e.substitute symbol x)

end

end Scalars

end Expression

end Calculator
