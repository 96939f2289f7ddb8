import Calculator.Expression.Basic
import Calculator.Polynomial.Printer

/-!
# The text of an expression

An expression has two texts. In the short one an operand is in parentheses only where it would
read as another tree without them; in the full one every operation is in parentheses.
-/

namespace Calculator

/-- The precedence of the operator that the text of a polynomial reads as, if it has one outside
parentheses. Only a single monomial does: it reads as a negation, a power or a product. -/
def Polynomial.precedence? (p : Polynomial Float Float) : Option Nat :=
  match p.monomials with
  | [m] =>
    if Binary64.isNegative m.coefficient then some Operator.sub.precedence
    else
      match m.powers with
      | [] => none
      | [power] =>
        if m.coefficient == 1 then
          if power.2 == 1 then none else some Operator.pow.precedence
        else some Operator.mul.precedence
      | _ => some Operator.mul.precedence
  | _ => none

/-- Puts a text into parentheses. -/
def parenthesized (text : List Char) : List Char :=
  '(' :: text ++ [')']

namespace Expression

/-- The precedence of the outermost operator of the short text, if it has one outside
parentheses. -/
def precedence? : Expression Float → Option Nat
  | value p => p.precedence?
  | call _ _ => none
  | operation op _ _ => some op.precedence

/-- Whether an expression needs parentheses on the left of an operator. -/
def needsParenthesesLeft (e : Expression Float) (op : Operator) : Bool :=
  match e.precedence? with
  | some p => p < op.precedence
  | none => false

/-- Whether an expression needs parentheses on the right of an operator. -/
def needsParenthesesRight (e : Expression Float) (op : Operator) : Bool :=
  match e.precedence? with
  | some p => p ≤ op.precedence
  | none => false

mutual

/-- The short text of an expression. -/
def text : Expression Float → List Char
  | value p => p.text
  | call f args => f.name.toList ++ parenthesized (argsText args)
  | operation op left right => leftText op left ++ op.symbol :: rightText op right

/-- The short text of a list of arguments. -/
def argsText : List (Expression Float) → List Char
  | [] => []
  | e :: es => e.text ++ laterArgsText es

/-- The short text of the arguments after the first one. -/
def laterArgsText : List (Expression Float) → List Char
  | [] => []
  | e :: es => ',' :: ' ' :: e.text ++ laterArgsText es

/-- The short text of a left operand. -/
def leftText (op : Operator) : Option (Expression Float) → List Char
  | none => []
  | some e => if e.needsParenthesesLeft op then parenthesized e.text else e.text

/-- The short text of a right operand. -/
def rightText (op : Operator) : Option (Expression Float) → List Char
  | none => []
  | some e => if e.needsParenthesesRight op then parenthesized e.text else e.text

end

mutual

/-- The full text of an expression. -/
def fullText : Expression Float → List Char
  | value p => if p.precedence?.isSome then parenthesized p.text else p.text
  | call f args => f.name.toList ++ parenthesized (fullArgsText args)
  | operation op left right =>
    parenthesized (fullOperandText left ++ op.symbol :: fullOperandText right)

/-- The full text of a list of arguments. -/
def fullArgsText : List (Expression Float) → List Char
  | [] => []
  | e :: es => e.fullText ++ laterFullArgsText es

/-- The full text of the arguments after the first one. -/
def laterFullArgsText : List (Expression Float) → List Char
  | [] => []
  | e :: es => ',' :: ' ' :: e.fullText ++ laterFullArgsText es

/-- The full text of an operand. -/
def fullOperandText : Option (Expression Float) → List Char
  | none => []
  | some e => e.fullText

end

end Expression

end Calculator
