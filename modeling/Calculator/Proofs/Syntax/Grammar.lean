import Calculator.Syntax.Parser
import Calculator.Proofs.Syntax.Literal

/-!
# The grammar of expressions

The grammar has one chain of operators for every level of precedence. A chain starts with
something of the next tighter level, and each further operand of it may be negated. An expression
is a chain of the loosest level. The same rules build the tree: chains group to the left,
parentheses leave no node, and a minus sign without a left operand is a subtraction that lacks it.
-/

namespace Calculator

/-- The operators of one precedence, from the loosest to the tightest. -/
inductive Level
  | sum
  | product
  | power
  | residue
deriving DecidableEq, Repr

/-- The precedence of the operators of the level. -/
def Level.precedence : Level → Nat
  | sum => 0
  | product => 1
  | power => 2
  | residue => 4

/-- The level of an operator. -/
def Operator.level : Operator → Level
  | add | sub => .sum
  | mul | div => .product
  | pow => .power
  | mod | factorial => .residue

/-- What a text can be derived from. -/
inductive Nonterminal
  /-- A value, a call, or an expression in parentheses. -/
  | atom
  /-- Operands joined by operators of a level. -/
  | chain (level : Level)
  /-- The right operand of an operator of a level: something tighter, which may be negated. -/
  | operand (level : Level)
deriving DecidableEq, Repr

/-- What the first operand of a chain is derived from. -/
def Level.tighter : Level → Nonterminal
  | sum => .chain .product
  | product => .chain .power
  | power => .chain .residue
  | residue => .atom

/-- The texts of a constant, an unknown or a number, with the leaves that they stand for. -/
inductive Leaf (unknowns : List Char) : List Char → Expression Float → Prop
  | pi : Leaf unknowns ['p', 'i'] (.constant Calculator.pi)
  | euler : Leaf unknowns ['e'] (.constant Calculator.euler)
  | unknown {c : Char} (hc : c ∈ unknowns) : Leaf unknowns [c] (.unknown c)
  | literal {cs : List Char} {d : Decimal} (h : Literal cs d) :
    Leaf unknowns cs (.constant d.toFloat)

/-- The texts of a nonterminal with the trees that they stand for. -/
inductive Derives (unknowns : List Char) : Nonterminal → List Char → Expression Float → Prop
  | leaf {cs : List Char} {e : Expression Float} (h : Leaf unknowns cs e) :
    Derives unknowns .atom cs e
  | group {cs : List Char} {e : Expression Float} (h : Derives unknowns (.chain .sum) cs e) :
    Derives unknowns .atom ('(' :: (cs ++ [')'])) e
  | call {f : NamedFunction} {args : List (List Char × Expression Float)} (hne : args ≠ [])
    (h : ∀ arg ∈ args, Derives unknowns (.chain .sum) arg.1 arg.2) :
    Derives unknowns .atom
      (f.name.toList ++ '(' :: ([','].intercalate (args.map (·.1)) ++ [')']))
      (.call f (args.map (·.2)))
  | tighter {level : Level} {cs : List Char} {e : Expression Float}
    (h : Derives unknowns level.tighter cs e) : Derives unknowns (.chain level) cs e
  | negation {cs : List Char} {e : Expression Float} (h : Derives unknowns (.operand .sum) cs e) :
    Derives unknowns (.chain .sum) ('-' :: cs) (.operation .sub none (some e))
  | binary {op : Operator} {cs ds : List Char} {left right : Expression Float}
    (hop : op.needsRight = true) (hleft : Derives unknowns (.chain op.level) cs left)
    (hright : Derives unknowns (.operand op.level) ds right) :
    Derives unknowns (.chain op.level) (cs ++ op.symbol :: ds)
      (.operation op (some left) (some right))
  | factorial {cs : List Char} {e : Expression Float}
    (h : Derives unknowns (.chain .residue) cs e) :
    Derives unknowns (.chain .residue) (cs ++ ['!']) (.operation .factorial (some e) none)
  | plain {level : Level} {cs : List Char} {e : Expression Float}
    (h : Derives unknowns level.tighter cs e) : Derives unknowns (.operand level) cs e
  | negated {level : Level} {cs : List Char} {e : Expression Float}
    (h : Derives unknowns (.operand level) cs e) :
    Derives unknowns (.operand level) ('-' :: cs) (.operation .sub none (some e))

/-- The level of an operator has its precedence. -/
@[simp] theorem Operator.precedence_level (op : Operator) :
    op.level.precedence = op.precedence := by
  cases op <;> rfl

/-- The precedence of a level determines it. -/
theorem Level.eq_of_precedence_eq {level level' : Level}
    (h : level.precedence = level'.precedence) : level = level' := by
  revert h
  cases level <;> cases level' <;> decide

namespace Level

/-- A property of nonterminals that passes from what a chain starts with to the chain. -/
def Lifts (P : Nonterminal → Prop) : Prop :=
  ∀ level : Level, P level.tighter → P (.chain level)

variable {P : Nonterminal → Prop}

/-- What lifts holds of every looser chain. -/
theorem Lifts.chain (hP : Lifts P) {level level' : Level} (h : P (.chain level'))
    (hle : level.precedence ≤ level'.precedence) : P (.chain level) := by
  cases level' with
  | sum =>
    obtain rfl : level = .sum := by revert hle; cases level <;> decide
    exact h
  | product =>
    obtain rfl | rfl : level = .sum ∨ level = .product := by revert hle; cases level <;> decide
    · exact hP .sum h
    · exact h
  | power =>
    have hproduct : P (.chain .product) := hP .product h
    obtain rfl | rfl | rfl : level = .sum ∨ level = .product ∨ level = .power := by
      revert hle; cases level <;> decide
    · exact hP .sum hproduct
    · exact hproduct
    · exact h
  | residue =>
    have hpower : P (.chain .power) := hP .power h
    have hproduct : P (.chain .product) := hP .product hpower
    cases level with
    | sum => exact hP .sum hproduct
    | product => exact hproduct
    | power => exact hpower
    | residue => exact h

/-- What lifts from a chain holds of all that a looser chain starts with. -/
theorem Lifts.tighter (hP : Lifts P) {level level' : Level} (h : P (.chain level'))
    (hlt : level.precedence < level'.precedence) : P level.tighter := by
  cases level with
  | sum => exact hP.chain h (by revert hlt; cases level' <;> decide)
  | product => exact hP.chain h (by revert hlt; cases level' <;> decide)
  | power => exact hP.chain h (by revert hlt; cases level' <;> decide)
  | residue => exact absurd hlt (by cases level' <;> decide)

/-- What lifts from a value, a call or a group holds of all that a chain starts with. -/
theorem Lifts.tighter_of_atom (hP : Lifts P) (h : P .atom) (level : Level) : P level.tighter := by
  have hresidue : P (.chain .residue) := hP .residue h
  cases level with
  | sum => exact hP.chain hresidue (by decide)
  | product => exact hP.chain hresidue (by decide)
  | power => exact hresidue
  | residue => exact h

end Level

namespace Derives

variable {unknowns : List Char} {cs : List Char} {e : Expression Float}

/-- Derivations lift. -/
theorem lifts (unknowns cs : List Char) (e : Expression Float) :
    Level.Lifts fun n => Derives unknowns n cs e :=
  fun _ => .tighter

/-- A tighter chain is a chain of every looser level. -/
theorem lift {level level' : Level} (h : Derives unknowns (.chain level') cs e)
    (hle : level.precedence ≤ level'.precedence) : Derives unknowns (.chain level) cs e :=
  (lifts unknowns cs e).chain h hle

/-- A chain of a tighter level may be the first operand of a chain. -/
theorem tighter_of_chain {level level' : Level} (h : Derives unknowns (.chain level') cs e)
    (hlt : level.precedence < level'.precedence) : Derives unknowns level.tighter cs e :=
  (lifts unknowns cs e).tighter h hlt

/-- A value, a call or a group may be the first operand of every chain. -/
theorem tighter_of_atom (h : Derives unknowns .atom cs e) (level : Level) :
    Derives unknowns level.tighter cs e :=
  (lifts unknowns cs e).tighter_of_atom h level

/-- A value, a call or a group is an expression. -/
theorem expression_of_atom (h : Derives unknowns .atom cs e) :
    Derives unknowns (.chain .sum) cs e :=
  .tighter (h.tighter_of_atom .sum)

end Derives

end Calculator
