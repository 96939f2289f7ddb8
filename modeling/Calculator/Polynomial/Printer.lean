import Calculator.Polynomial.Basic
import Calculator.Binary64.Scalar
import Calculator.Decimal.Shortest

/-!
# The text of a polynomial

A monomial prints as a product: coefficients of one and exponents of one are left out. A
polynomial prints as the sum of its monomials, in parentheses if it has more than one.
-/

namespace Calculator

namespace Monomial

/-- The text of one power. -/
def powerText (power : Char × Float) : List Char :=
  if power.2 == 1 then [power.1] else power.1 :: '^' :: numberText power.2

/-- What stands before the powers of a monomial. -/
def coefficientText (coefficient : Float) : List Char :=
  if coefficient == -1 then ['-']
  else if coefficient == 1 then []
  else numberText coefficient ++ ['*']

/-- The text of a monomial. -/
def text (m : Monomial Float Float) : List Char :=
  if m.isConstant then numberText m.coefficient
  else coefficientText m.coefficient ++ ['*'].intercalate (m.powers.map powerText)

/-- The text of a monomial that stands after another one in a sum: a plus sign goes before it
unless it shows a minus sign of its own. -/
def laterText (m : Monomial Float Float) : List Char :=
  if Binary64.isNegative m.coefficient then m.text else '+' :: m.text

end Monomial

namespace Polynomial

/-- The text of a polynomial. -/
def text (p : Polynomial Float Float) : List Char :=
  match p.monomials with
  | [] => ['0']
  | [m] => m.text
  | m :: ms => '(' :: m.text ++ ms.flatMap (·.laterText) ++ [')']

end Polynomial

end Calculator
