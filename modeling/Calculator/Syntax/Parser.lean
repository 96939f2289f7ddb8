import Calculator.Binary64.Scalar
import Calculator.Decimal.Reading
import Calculator.Evaluation.Error
import Calculator.Syntax.Chain
import Calculator.Text.Blank
import Calculator.Text.Letter

/-!
# The parser

A piece of source is read as a chain of operators, as a call, or as a value, after the parentheses
around it are taken off. Each operand of a chain and each parameter of a call is one level of
nesting, and the number of levels is limited; parentheses and long chains are no nesting.
-/

namespace Calculator

/-- Why a text is not read as an expression. -/
inductive ParseFailure
  /-- A character that cannot stand for an unknown. -/
  | invalidUnknown (symbol : Char)
  /-- The text is nested deeper than the limit. -/
  | tooDeep (limit : Nat)
  | malformed (error : ParseError)
deriving DecidableEq, Repr

/-- Why a piece is not read as an expression. -/
inductive PieceFailure
  | tooDeep
  | fault (fault : Fault)
deriving DecidableEq, Repr

/-- The constant pi. -/
def pi : Float := 3.141592653589793

/-- The base of the natural logarithm. -/
def euler : Float := 2.718281828459045

/-- Whether a character can stand for an unknown: it is a letter, and not the constant `e`. -/
def isUnknownSymbol (c : Char) : Bool :=
  Text.isLetter c && c != 'e'

/-- The first of a list of characters that cannot stand for an unknown. -/
def refusedUnknown? (unknowns : List Char) : Option Char :=
  unknowns.find? fun c => !isUnknownSymbol c

/-- Reads a value: a constant, an unknown, or a literal. -/
def readValue (unknowns : List Char) (p : Piece) : Except PieceFailure (Expression Float) :=
  if p.chars = ['p', 'i'] then .ok (.constant pi)
  else
    match p.chars with
    | ['e'] => .ok (.constant euler)
    | [c] => if unknowns.contains c then .ok (.unknown c) else literal
    | _ => literal
where
  /-- Reads a literal. -/
  literal : Except PieceFailure (Expression Float) :=
    match readLiteral? p.chars with
    | some x => .ok (.constant x)
    | none => .error (.fault ⟨.invalidValue, p.offset⟩)

/-- A name and the piece inside the parentheses after it, if the piece ends there. -/
def Piece.call? (p : Piece) : Option (String × Piece) :=
  match firstGroup p.offset p.chars with
  | .ok (some ⟨c :: cs, inside, []⟩) =>
    some (String.ofList (c :: cs), ⟨p.offset + cs.length + 2, inside⟩)
  | _ => none

/-- Puts an operation together; a fault is at the operator, or after it if an operand stands there
that the operator does not take. -/
def Link.join (link : Link) (left right : Option (Expression Float)) :
    Except PieceFailure (Expression Float) :=
  match Expression.operation? link.operator left right with
  | .ok e => .ok e
  | .error (.missing op) => .error (.fault ⟨.operand (.missing op), link.offset⟩)
  | .error (.unexpected op) => .error (.fault ⟨.operand (.unexpected op), link.offset + 1⟩)

/-- Reads an operand, which an empty piece leaves absent. -/
def readOperand (read : Piece → Except PieceFailure (Expression Float)) (p : Piece) :
    Except PieceFailure (Option (Expression Float)) :=
  if p.chars.isEmpty then .ok none else (read p).map some

/-- Reads a chain, each operand before the operation on its left is put together. -/
def readChain (read : Piece → Except PieceFailure (Expression Float)) (chain : Chain) :
    Except PieceFailure (Expression Float) := do
  let left ← readOperand read chain.first
  let right ← readOperand read chain.link.operand
  let start ← chain.link.join left right
  chain.links.foldlM (fun left link => do
    let right ← readOperand read link.operand
    link.join (some left) right) start

/-- Reads the call of a name at an offset. -/
def readCall (read : Piece → Except PieceFailure (Expression Float)) (offset : Nat)
    (name : String) (inside : Piece) : Except PieceFailure (Expression Float) :=
  match NamedFunction.ofName? name with
  | none => .error (.fault ⟨.unknownFunction name, offset⟩)
  | some f => do
    let parameters ← inside.parameters.mapError .fault
    let args ← parameters.mapM read
    .ok (.call f args)

/-- Reads a piece, with `levels` levels of nesting left for it. -/
def readPiece (unknowns : List Char) : (levels : Nat) → Piece →
    Except PieceFailure (Expression Float)
  | 0, _ => .error .tooDeep
  | levels + 1, wrapped => do
    let p ← wrapped.unwrap.mapError .fault
    if p.chars.isEmpty then .error (.fault ⟨.emptyBody, p.offset⟩)
    else
      let _ ← p.groups.mapError .fault
      match p.chain? with
      | some chain => readChain (readPiece unknowns levels) chain
      | none =>
        match p.call? with
        | some (name, inside) => readCall (readPiece unknowns levels) p.offset name inside
        | none => readValue unknowns p

/-- Reads an expression from source without blanks, with at most `limit` levels of nesting below
the root. -/
def parseSource (unknowns : List Char) (limit : Nat) (source : List Char) :
    Except ParseFailure (Expression Float) :=
  match refusedUnknown? unknowns with
  | some c => .error (.invalidUnknown c)
  | none =>
    match readPiece unknowns (limit + 1) ⟨0, source⟩ with
    | .ok e => .ok e
    | .error .tooDeep => .error (.tooDeep limit)
    | .error (.fault fault) => .error (.malformed (.ofFault source fault))

/-- Reads an expression from a text; blanks may stand anywhere in it. -/
def parse (unknowns : List Char) (limit : Nat) (text : String) :
    Except ParseFailure (Expression Float) :=
  parseSource unknowns limit (Text.stripBlanks text.toList)

/-- The nesting limit unless another one is set. -/
def defaultNestingLimit : Nat := 512

/-- The message for the user. -/
def ParseFailure.message : ParseFailure → String
  | invalidUnknown c => s!"'{c}' cannot be used as an unknown"
  | tooDeep limit => nestingMessage limit
  | malformed e => "parse error: " ++ e.message

end Calculator
