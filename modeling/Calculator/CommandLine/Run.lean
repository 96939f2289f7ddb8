import Calculator.CommandLine.Arguments
import Calculator.Evaluation.Expression
import Calculator.Expression.Printer
import Calculator.Settings.Basic
import Calculator.Simplification.Expression

/-!
# One run of the command line

The arguments override what a document of settings says. The result is the full text of the
expression, the text of its simplified form, or the text of its value.
-/

namespace Calculator

/-- Reads a file: its text, or why it cannot be read. -/
abbrev FileReader := String → Except String String

/-- The settings and bindings of a document file. -/
def readConfig (read : FileReader) (path : String) : Except Failure (Settings × Bindings) :=
  match read path with
  | .error reason => .error (.settings (.unreadable path reason))
  | .ok text => do
    let settings ← Settings.ofText text
    let bindings ← (Bindings.ofText text).mapError .settings
    .ok (settings, bindings)

namespace Arguments

/-- The unknowns that an argument lists, with blanks and commas between them. -/
def unknownsOf (text : String) : List Char :=
  text.toList.filter fun c => !(Text.isBlank c || c == ',')

/-- Puts the unknowns of the arguments in place of those of the settings. -/
def overrideUnknowns (arguments : Arguments) (settings : Settings) : Except Failure Settings :=
  match arguments.unknowns with
  | none => .ok settings
  | some text => { settings with unknowns := unknownsOf text }.validate

/-- Puts the log level of the arguments in place of that of the settings. -/
def overrideLogLevel (arguments : Arguments) (settings : Settings) : Except Failure Settings :=
  match arguments.logLevel with
  | none => .ok settings
  | some text => do
    let logLevel ← (readLogLevel text).mapError .settings
    .ok { settings with logLevel }

/-- The settings and bindings of a run. -/
def setUp (arguments : Arguments) (read : FileReader) : Except Failure (Settings × Bindings) := do
  let (settings, bindings) ←
    match arguments.config with
    | some path => readConfig read path
    | none => .ok ({}, [])
  let settings ← arguments.overrideUnknowns settings
  let settings ← arguments.overrideLogLevel settings
  let more ← (arguments.bindings.mapM Bindings.readOne).mapError .settings
  .ok (settings, bindings ++ more)

/-- The text that a run prints for an expression. -/
def answer (arguments : Arguments) (bindings : Bindings) (e : Expression Float) :
    Except Failure (List Char) :=
  if arguments.calculus then .ok e.fullText
  else if arguments.symbolic then (e.simplify.mapError .evaluation).map (·.text)
  else ((e.evaluate bindings.toAssignment).mapError .evaluation).map numberText

/-- The text that a run prints. -/
def run (arguments : Arguments) (read : FileReader) : Except Failure String := do
  let (settings, bindings) ← arguments.setUp read
  let e ← (parse settings.unknowns settings.nestingLimit arguments.expression).mapError .parse
  let text ← arguments.answer bindings e
  .ok (String.ofList text)

end Arguments

end Calculator
