import Calculator.Expression.Basic

/-!
# Parse errors

A fault is a cause with the offset of the character that it is found at. A parse error adds an
excerpt of the source around that offset, and renders it with a caret under the character.
Offsets count the characters of the source without its blanks.
-/

namespace Calculator

/-- What makes a text no expression. -/
inductive ParseCause
  /-- Nothing stands where an expression is expected. -/
  | emptyBody
  /-- A closing parenthesis without an opening one, or an opening one that is never closed. -/
  | unmatchedParenthesis
  /-- A call of a name that no function has. -/
  | unknownFunction (name : String)
  /-- A call with an empty argument. -/
  | emptyParameter
  /-- Neither a constant, nor an unknown, nor a number. -/
  | invalidValue
  /-- An operator without an operand that it needs, or with one that it does not take. -/
  | operand (error : OperandError)
deriving DecidableEq, Repr

/-- A cause and the offset where it is found. -/
structure Fault where
  cause : ParseCause
  offset : Nat
deriving DecidableEq, Repr

/-- A fault with the excerpt of the source that is shown with it. -/
structure ParseError where
  cause : ParseCause
  offset : Nat
  excerptStart : Nat
  excerpt : List Char
deriving DecidableEq, Repr

/-- The message of operands that an operator does not accept. -/
def OperandError.message : OperandError → String
  | missing op =>
    let symbol := op.symbol
    s!"missing operand for operator '{symbol}'"
  | unexpected op =>
    let symbol := op.symbol
    s!"operator '{symbol}' takes no operand on this side"

/-- The message of a cause. -/
def ParseCause.message : ParseCause → String
  | emptyBody => "empty body"
  | unmatchedParenthesis => "unmatched parenthesis"
  | unknownFunction name => s!"unknown function '{name}'"
  | emptyParameter => "empty function parameter"
  | invalidValue => "cannot parse value"
  | operand e => e.message

/-- Whether an excerpt may not be extended to the left over the character. -/
def stopsExcerpt (c : Char) : Bool :=
  (Operator.ofSymbol? c).isSome || c == ')'

namespace ParseError

/-- How far before the offset the excerpt starts at least. -/
def lead : Nat := 2

/-- How many characters the excerpt takes from there. -/
def window : Nat := 6

/-- Adds the excerpt to a fault. It starts two characters before the offset, or further left after
the nearest operator or closing parenthesis, and ends six characters after the former place. -/
def ofFault (source : List Char) (fault : Fault) : ParseError :=
  let base := min (fault.offset - lead) source.length
  let head := (source.take base).reverse.takeWhile fun c => !stopsExcerpt c
  let start := base - head.length
  let stop := min (base + window) source.length
  ⟨fault.cause, fault.offset, start, (source.take stop).drop start⟩

/-- The message: the cause, its offset and the excerpt. -/
def message (e : ParseError) : String :=
  let cause := e.cause.message
  let offset := e.offset
  let excerpt := String.ofList e.excerpt
  s!"{cause} at offset {offset} near '{excerpt}'"

/-- The excerpt with a caret under the character at the offset, on two lines. -/
def render (e : ParseError) : String :=
  let excerpt := String.ofList e.excerpt
  let blanks := String.ofList (List.replicate (e.offset - e.excerptStart) ' ')
  s!"{excerpt} ...\n{blanks}^"

end ParseError

end Calculator
