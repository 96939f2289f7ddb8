/-!
# Named functions

The functions that an expression may call by name.
-/

namespace Calculator

/-- A function with a name. -/
inductive NamedFunction
  | cos
  | sin
  | tan
  /-- The natural logarithm. -/
  | ln
  /-- The logarithm of the first argument to the base of the second. -/
  | log
deriving DecidableEq, Repr

namespace NamedFunction

/-- All named functions. -/
def all : List NamedFunction :=
  [cos, sin, tan, ln, log]

/-- The name that calls the function. -/
def name : NamedFunction → String
  | cos => "cos"
  | sin => "sin"
  | tan => "tan"
  | ln => "ln"
  | log => "log"

/-- The number of arguments. -/
def arity : NamedFunction → Nat
  | log => 2
  | _ => 1

/-- The function of a name. -/
def ofName? (name : String) : Option NamedFunction :=
  all.find? fun f => f.name == name

end NamedFunction

end Calculator
