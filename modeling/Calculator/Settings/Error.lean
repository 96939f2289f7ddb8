import Calculator.Settings.LogLevel
import Calculator.Syntax.Parser

/-!
# Failures of the calculator

The reasons for which settings or bindings are refused, and all failures that the calculator
reports.
-/

namespace Calculator

/-- The greatest nesting limit that may be set. -/
def greatestNestingLimit : Nat := depthLimit

/-- Why settings or bindings are refused. -/
inductive SettingsError
  /-- A file cannot be read. -/
  | unreadable (path reason : String)
  /-- A text does not start with a section. -/
  | noDocument
  /-- Something is left after the last section. -/
  | leftover (rest : String)
  /-- An unknown is not one character. -/
  | notOneCharacter (text : String)
  /-- A key has another number of values than one. -/
  | notOneValue (key : String) (count : Nat)
  /-- A key has no list of values. -/
  | noValue (key : String)
  /-- The nesting limit is no positive integer. -/
  | limitNotPositive (text : String)
  /-- The nesting limit is zero or too great. -/
  | limitOutOfRange (limit : Nat)
  /-- An unknown is bound to something that is no number. -/
  | notANumber (key text : String)
  | unknownLogLevel (text : String)
  /-- A binding does not have the form of a character, an equals sign and a number. -/
  | malformedBinding (text : String)
deriving DecidableEq, Repr

/-- The message for the user. -/
def SettingsError.message (error : SettingsError) : String :=
  "configuration error: " ++
    match error with
    | unreadable path reason => s!"cannot read {path}: {reason}"
    | noDocument => "parsing error"
    | leftover rest => s!"failed to parse entire document. Remaining: '{rest}'"
    | notOneCharacter text => s!"unknowns must be single characters, got '{text}'"
    | notOneValue key count => s!"'{key}' takes exactly one value, {count} given"
    | noValue key => s!"no value bound to '{key}'"
    | limitNotPositive text => s!"max_depth must be a positive integer, got '{text}'"
    | limitOutOfRange limit =>
      s!"max_depth must be within 1..={greatestNestingLimit}, got {limit}"
    | notANumber key text => s!"value of '{key}' is not a number: '{text}'"
    | unknownLogLevel text =>
      s!"loglevel must be off, error, warn, info, debug or trace, got '{text}'"
    | malformedBinding text => s!"binding must look like x=2, got '{text}'"

/-- A failure that the calculator reports. -/
inductive Failure
  | parse (failure : ParseFailure)
  | evaluation (error : EvalError Float)
  | settings (error : SettingsError)

/-- The message for the user. -/
def Failure.message : Failure → String
  | parse failure => failure.message
  | evaluation error => error.message
  | settings error => error.message

end Calculator
