import Calculator.CommandLine.Run

/-!
# The program

Reads the arguments and the settings file, prints the result of the run, and reports failures on
the error output.
-/

namespace Calculator

/-- How the program is called. -/
def usage : String :=
  "Usage: calculator [OPTIONS] <EXPRESSION>\n\n" ++
  "  -u, --unknowns <UNKNOWNS>    single-letter unknowns of the expression\n" ++
  "  -b, --bind <SYMBOL=VALUE>    value of an unknown (repeatable)\n" ++
  "  -s, --symbolic               print the simplified expression\n" ++
  "  -c, --calculus               print the fully parenthesized expression\n" ++
  "      --config <FILE>          document with settings and bindings\n" ++
  "  -l, --loglevel <LOGLEVEL>    off, error, warn, info, debug or trace\n" ++
  "  -h, --help                   print this text\n" ++
  "  -V, --version                print the version"

/-- What is reported for arguments that are refused. -/
def UsageError.message : UsageError → String
  | missingRequiredArgument => "error: an expression is required"
  | unknownArgument => "error: unexpected argument"
  | invalidValue => "error: a value is required for an option"
  | argumentConflict => "error: an option cannot be used multiple times"
  | tooManyValues => "error: a flag takes no value"
  | displayHelp => usage
  | displayVersion => "calculator 0.1.0"

/-- What is reported for a failure; a parse error shows its place in the source. -/
def Failure.report : Failure → String
  | parse (.malformed e) => s!"Error: {e.cause.message}\n{e.render}"
  | failure => s!"Error: {failure.message}"

/-- Reads a file, or says why it cannot be read. -/
def readFile (path : String) : IO (Except String String) := do
  try
    let text ← IO.FS.readFile path
    return .ok text
  catch e => return .error (toString e)

end Calculator

open Calculator

/-- Runs the calculator once. -/
def main (args : List String) : IO UInt32 := do
  match Arguments.read args with
  | .error .displayHelp => IO.println usage; return 0
  | .error .displayVersion => IO.println (UsageError.message .displayVersion); return 0
  | .error e => IO.eprintln e.message; IO.eprintln usage; return 2
  | .ok arguments =>
    let content ← match arguments.config with
      | some path => readFile path
      | none => pure (.error "")
    match arguments.run fun _ => content with
    | .ok text => IO.println text; return 0
    | .error failure => IO.eprintln failure.report; return 1
