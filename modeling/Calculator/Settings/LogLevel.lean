import Calculator.Text.Lowercase

/-!
# Log levels

How much the calculator would report about its work.
-/

namespace Calculator

/-- A level of reporting; each one includes those before it. -/
inductive LogLevel
  | off
  | error
  | warn
  | info
  | debug
  | trace
deriving DecidableEq, Repr

namespace LogLevel

/-- The level of a word in lower case. -/
def ofWord? (word : List Char) : Option LogLevel :=
  if word = "off".toList || word = "none".toList then some off
  else if word = "error".toList then some error
  else if word = "warn".toList then some warn
  else if word = "info".toList then some info
  else if word = "debug".toList then some debug
  else if word = "trace".toList then some trace
  else none

end LogLevel

end Calculator
