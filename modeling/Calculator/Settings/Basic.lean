import Calculator.Document.Parser
import Calculator.Evaluation.Assignment
import Calculator.Settings.Error

/-!
# Settings

The unknowns that an expression may use, the nesting limit and the log level, as they are read
from the section `engine` of a document, and the values of unknowns from its section `bindings`.
What a document does not set has a default.
-/

namespace Calculator

/-- The settings of the calculator. -/
structure Settings where
  unknowns : List Char := []
  nestingLimit : Nat := defaultNestingLimit
  logLevel : LogLevel := .info
deriving DecidableEq, Repr

/-- Values of unknowns, in the order in which they were bound. -/
abbrev Bindings := List (Char × Float)

/-- Reads a log level in any letter case. -/
def readLogLevel (text : String) : Except SettingsError LogLevel :=
  let word := Text.lowercase text.toList
  match LogLevel.ofWord? word with
  | some level => .ok level
  | none => .error (.unknownLogLevel (String.ofList word))

namespace Document

/-- Reads a document from a text with comments, all of it, and completes it to a template. -/
def read (template : List (String × List String)) (text : String) :
    Except SettingsError Document :=
  match parse? (withoutComments text.toList) with
  | none => .error .noDocument
  | some (document, rest) =>
    if (Text.trim rest).isEmpty then .ok (document.complete template)
    else .error (.leftover (String.ofList rest))

end Document

namespace Settings

/-- The sections and keys that settings and bindings are read from. -/
def template : List (String × List String) :=
  [("engine", ["unknowns", "max_depth", "loglevel"]), ("bindings", [])]

/-- The one character of a text. -/
def oneCharacter (text : String) : Except SettingsError Char :=
  match text.toList with
  | [c] => .ok c
  | _ => .error (.notOneCharacter text)

/-- The one value of a key. -/
def oneValue (key : String) (values : List DocumentValue) : Except SettingsError DocumentValue :=
  match values with
  | [v] => .ok v
  | _ => .error (.notOneValue key values.length)

/-- Refuses settings with an unknown that no expression can use, or with a nesting limit that is
zero or too great. -/
def validate (settings : Settings) : Except Failure Settings :=
  match refusedUnknown? settings.unknowns with
  | some c => .error (.parse (.invalidUnknown c))
  | none =>
    if settings.nestingLimit = 0 ∨ greatestNestingLimit < settings.nestingLimit then
      .error (.settings (.limitOutOfRange settings.nestingLimit))
    else .ok settings

/-- The values of a key of a section, if it has any. -/
def valuesOf? (part : Section) (key : String) : Option (List DocumentValue) :=
  (part.get? key).join

/-- The unknowns that a section sets. -/
def readUnknowns (part : Section) (settings : Settings) : Except SettingsError Settings :=
  match valuesOf? part "unknowns" with
  | none => .ok settings
  | some values => do
    let unknowns ← values.mapM fun v => oneCharacter v.toText
    .ok { settings with unknowns }

/-- The nesting limit that a section sets. -/
def readNestingLimit (part : Section) (settings : Settings) : Except SettingsError Settings :=
  match valuesOf? part "max_depth" with
  | none => .ok settings
  | some values => do
    let v ← oneValue "max_depth" values
    match v.integer? with
    | some n =>
      if 0 < n then .ok { settings with nestingLimit := n.toNat }
      else .error (.limitNotPositive v.toText)
    | none => .error (.limitNotPositive v.toText)

/-- The log level that a section sets. -/
def readLogLevelOf (part : Section) (settings : Settings) : Except SettingsError Settings :=
  match valuesOf? part "loglevel" with
  | none => .ok settings
  | some values => do
    let v ← oneValue "loglevel" values
    let logLevel ← readLogLevel v.toText
    .ok { settings with logLevel }

/-- The settings of a section. -/
def ofSection (part : Section) : Except SettingsError Settings := do
  let settings ← readUnknowns part {}
  let settings ← readNestingLimit part settings
  readLogLevelOf part settings

/-- Reads the settings of a document. -/
def ofText (text : String) : Except Failure Settings :=
  match Document.read template text with
  | .error e => .error (.settings e)
  | .ok document =>
    match ofSection ((document.get? "engine").getD []) with
    | .error e => .error (.settings e)
    | .ok settings => settings.validate

end Settings

namespace Bindings

/-- The binding of a key with its values. -/
def ofEntry (entry : String × Option (List DocumentValue)) :
    Except SettingsError (Char × Float) := do
  let symbol ← Settings.oneCharacter entry.1
  match entry.2 with
  | none => .error (.noValue entry.1)
  | some values =>
    let v ← Settings.oneValue entry.1 values
    match v.number? with
    | some x => .ok (symbol, x)
    | none => .error (.notANumber entry.1 v.toText)

/-- Reads the bindings of a document. -/
def ofText (text : String) : Except SettingsError Bindings := do
  let document ← Document.read Settings.template text
  ((document.get? "bindings").getD []).mapM ofEntry

/-- Reads a binding of the form of a character, an equals sign and a number, with blanks around
the character and the number. -/
def readOne (text : String) : Except SettingsError (Char × Float) :=
  let symbol := Text.trim (text.toList.takeWhile (· != '='))
  match text.toList.dropWhile (· != '='), symbol with
  | _ :: value, [c] =>
    match readNumber? (Text.trim value) with
    | some x => .ok (c, x)
    | none => .error (.malformedBinding text)
  | _, _ => .error (.malformedBinding text)

/-- The assignment that the bindings make. -/
def toAssignment (bindings : Bindings) : Assignment Float :=
  .ofList bindings

end Bindings

end Calculator
