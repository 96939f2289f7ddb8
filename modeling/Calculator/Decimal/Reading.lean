import Calculator.Decimal.Basic

/-!
# Reading decimal numbers

Two notations are read. A *literal* has an optional sign and at least one digit, with at most one
decimal point before, between or after the digits. A *number* may also carry an exponent, or be
one of the words for infinity and for the undefined value.
-/

namespace Calculator

namespace Decimal

/-- Takes an optional sign off: whether it was a minus, and what follows. -/
def takeSign : List Char → Bool × List Char
  | '-' :: cs => (true, cs)
  | '+' :: cs => (false, cs)
  | cs => (false, cs)

/-- Takes digits with at most one point off the front: all digits, how many of them stand after
the point, and what follows. There has to be a digit. -/
def takeDigits? (cs : List Char) : Option (List Char × Nat × List Char) :=
  let whole := cs.takeWhile Char.isDigit
  match cs.dropWhile Char.isDigit with
  | '.' :: more =>
    let fraction := more.takeWhile Char.isDigit
    if whole.isEmpty && fraction.isEmpty then none
    else some (whole ++ fraction, fraction.length, more.dropWhile Char.isDigit)
  | rest => if whole.isEmpty then none else some (whole, 0, rest)

/-- Reads what follows the digits of a number: nothing, or `e` or `E` and a whole number. -/
def readExponent? : List Char → Option Int
  | [] => some 0
  | c :: cs =>
    if c == 'e' || c == 'E' then
      let (negative, digits) := takeSign cs
      if digits.isEmpty || !digits.all Char.isDigit then none
      else if negative then some (-(valueOf digits : Int)) else some (valueOf digits)
    else none

/-- Reads a literal: a sign, digits and a point, and nothing else. -/
def readLiteral? (cs : List Char) : Option Decimal :=
  let (negative, unsigned) := takeSign cs
  match takeDigits? unsigned with
  | some (digits, places, []) => some ⟨negative, valueOf digits, -places⟩
  | _ => none

/-- Reads a number in digits: a literal that an exponent may follow. -/
def read? (cs : List Char) : Option Decimal :=
  let (negative, unsigned) := takeSign cs
  match takeDigits? unsigned with
  | some (digits, places, rest) =>
    (readExponent? rest).map fun exponent => ⟨negative, valueOf digits, exponent - places⟩
  | none => none

end Decimal

/-- The double of a literal in an expression. -/
def readLiteral? (cs : List Char) : Option Float :=
  (Decimal.readLiteral? cs).map Decimal.toFloat

/-- The value of a number word in any letter case: infinity, or the undefined value. -/
def readNumberWord? (cs : List Char) : Option Float :=
  let (negative, word) := Decimal.takeSign cs
  let lowered := word.map Char.toLower
  if lowered == "inf".toList || lowered == "infinity".toList then
    some (if negative then -(1.0 / 0.0) else 1.0 / 0.0)
  else if lowered == "nan".toList then some (0.0 / 0.0)
  else none

/-- The double of a number in data: digits with an optional exponent, or a number word. -/
def readNumber? (cs : List Char) : Option Float :=
  match Decimal.read? cs with
  | some d => some d.toFloat
  | none => readNumberWord? cs

/-- The integer of a token of digits with an optional sign, if it fits into sixty-four bits. -/
def readInteger? (cs : List Char) : Option Int :=
  let (negative, digits) := Decimal.takeSign cs
  if digits.isEmpty || !digits.all Char.isDigit then none
  else
    let n : Int := Decimal.valueOf digits
    let value := if negative then -n else n
    if -Int.pow 2 63 ≤ value ∧ value < Int.pow 2 63 then some value else none

end Calculator
