import Calculator.Syntax.Parentheses

/-!
# Chains of operators

The operators of lowest precedence outside parentheses split a piece into a chain: a first operand
and links of an operator with its right operand. A chain is read from left to right, so that
operators of one precedence group to the left.
-/

namespace Calculator

/-- Whether an operand may end with the character. At the start of a piece there is none. -/
def endsOperand : Option Char → Bool
  | none => false
  | some c =>
    match Operator.ofSymbol? c with
    | some op => op.isPostfix
    | none => c != '(' && c != ','

/-- Whether an operator after the character splits the piece: it has a left operand, or it needs
none and starts the piece. -/
def accepts (previous : Option Char) (op : Operator) : Bool :=
  endsOperand previous || (!op.needsLeft && previous.isNone)

/-- Marks the characters that are operators outside parentheses, with `depth` open. -/
def markOperators (previous : Option Char) (depth : Nat) :
    List Char → List (Char × Option Operator)
  | [] => []
  | c :: cs =>
    let mark := if depth = 0 then (Operator.ofSymbol? c).filter (accepts previous) else none
    (c, mark) :: markOperators (some c) (nestingAfter depth c) cs

/-- An operator, its offset, and its right operand, which may be empty. -/
structure Link where
  operator : Operator
  offset : Nat
  operand : Piece
deriving DecidableEq, Repr

/-- A first operand, which may be empty, and links. -/
structure Chain where
  first : Piece
  link : Link
  links : List Link
deriving DecidableEq, Repr

/-- The lowest precedence of the marked operators. -/
def lowestPrecedence? (marks : List (Char × Option Operator)) : Option Nat :=
  ((marks.filterMap (·.2)).map (·.precedence)).min?

/-- Splits marked characters at the operators of one precedence. -/
def splitAtPrecedence (precedence : Nat) (offset : Nat) :
    List (Char × Option Operator) → List Char × List Link
  | [] => ([], [])
  | (c, mark) :: marks =>
    let (operand, links) := splitAtPrecedence precedence (offset + 1) marks
    match mark with
    | some op =>
      if op.precedence = precedence then ([], ⟨op, offset, ⟨offset + 1, operand⟩⟩ :: links)
      else (c :: operand, links)
    | none => (c :: operand, links)

/-- The chain of a piece, if it has an operator outside parentheses. -/
def Piece.chain? (p : Piece) : Option Chain :=
  let marks := markOperators none 0 p.chars
  match lowestPrecedence? marks with
  | none => none
  | some precedence =>
    match splitAtPrecedence precedence p.offset marks with
    | (operand, link :: links) => some ⟨⟨p.offset, operand⟩, link, links⟩
    | (_, []) => none

end Calculator
