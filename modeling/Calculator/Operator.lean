/-!
# Operators

The fixed set of operators with their symbols, their precedence, and the operands they need. The
subtraction serves as the sign of a number when its left operand is absent, and the factorial
stands after its only operand.
-/

namespace Calculator

/-- An operator of an expression. -/
inductive Operator
  | add
  | sub
  | mul
  | div
  | pow
  | mod
  | factorial
deriving DecidableEq, Repr

namespace Operator

/-- All operators. -/
def all : List Operator :=
  [add, sub, mul, div, pow, mod, factorial]

/-- The character that stands for the operator. -/
def symbol : Operator → Char
  | add => '+'
  | sub => '-'
  | mul => '*'
  | div => '/'
  | pow => '^'
  | mod => '%'
  | factorial => '!'

/-- How tightly the operator binds its operands. -/
def precedence : Operator → Nat
  | add | sub => 0
  | mul | div => 1
  | pow => 2
  | mod | factorial => 4

/-- Whether a left operand is required. -/
def needsLeft : Operator → Bool
  | sub => false
  | _ => true

/-- Whether a right operand is required. -/
def needsRight : Operator → Bool
  | factorial => false
  | _ => true

/-- Whether the operator stands after its operand and takes none on its right. -/
def isPostfix (op : Operator) : Bool :=
  !op.needsRight

/-- The operator of a character. -/
def ofSymbol? (c : Char) : Option Operator :=
  all.find? fun op => op.symbol == c

end Operator

end Calculator
