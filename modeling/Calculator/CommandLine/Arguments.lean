/-!
# Command line arguments

The arguments are one expression, options with a value and flags. An option has its value attached
or in the next argument. A value is recorded only when the next argument is taken, or at the end:
this decides which of two mistakes is reported.
-/

namespace Calculator

/-- Why arguments are refused, or what they ask for in place of a result. -/
inductive UsageError
  | missingRequiredArgument
  | unknownArgument
  /-- An option without its value. -/
  | invalidValue
  /-- An option or a flag that is given twice. -/
  | argumentConflict
  /-- A flag with a value. -/
  | tooManyValues
  | displayHelp
  | displayVersion
deriving DecidableEq, Repr

/-- The arguments of one run. -/
structure Arguments where
  expression : String
  unknowns : Option String := none
  bindings : List String := []
  symbolic : Bool := false
  calculus : Bool := false
  config : Option String := none
  logLevel : Option String := none
deriving DecidableEq, Repr

namespace Arguments

/-- An option with a value. -/
inductive ValueOption
  | unknowns
  | bind
  | config
  | logLevel
deriving DecidableEq, Repr

/-- An option without a value. -/
inductive Flag
  | symbolic
  | calculus
  | help
  | version
deriving DecidableEq, Repr

/-- An option of either sort. -/
inductive Switch
  | option (o : ValueOption)
  | flag (f : Flag)
deriving DecidableEq, Repr

/-- The option of a name after two hyphens. -/
def ofLongName? (name : String) : Option Switch :=
  if name = "unknowns" then some (.option .unknowns)
  else if name = "bind" then some (.option .bind)
  else if name = "config" then some (.option .config)
  else if name = "loglevel" then some (.option .logLevel)
  else if name = "symbolic" then some (.flag .symbolic)
  else if name = "calculus" then some (.flag .calculus)
  else if name = "help" then some (.flag .help)
  else if name = "version" then some (.flag .version)
  else none

/-- The option of a letter after one hyphen. -/
def ofShortName? : Char → Option Switch
  | 'u' => some (.option .unknowns)
  | 'b' => some (.option .bind)
  | 'l' => some (.option .logLevel)
  | 's' => some (.flag .symbolic)
  | 'c' => some (.flag .calculus)
  | 'h' => some (.flag .help)
  | 'V' => some (.flag .version)
  | _ => none

/-- What has been read of the arguments. -/
structure State where
  expression : Option String := none
  unknowns : Option String := none
  bindings : List String := []
  symbolic : Bool := false
  calculus : Bool := false
  config : Option String := none
  logLevel : Option String := none
  /-- The last option, with its value if that has come, until it is recorded. -/
  pending : Option (ValueOption × Option String) := none
  /-- Whether two hyphens have ended the options. -/
  optionsEnded : Bool := false
deriving DecidableEq, Repr

namespace State

/-- Records the value of an option, which only a binding may have twice. -/
def record (s : State) (o : ValueOption) (value : String) : Except UsageError State :=
  match o with
  | .unknowns =>
    if s.unknowns.isSome then .error .argumentConflict else .ok { s with unknowns := some value }
  | .bind => .ok { s with bindings := s.bindings ++ [value] }
  | .config =>
    if s.config.isSome then .error .argumentConflict else .ok { s with config := some value }
  | .logLevel =>
    if s.logLevel.isSome then .error .argumentConflict else .ok { s with logLevel := some value }

/-- Records the pending option, which must have its value. -/
def settle (s : State) : Except UsageError State :=
  match s.pending with
  | none => .ok s
  | some (_, none) => .error .invalidValue
  | some (o, some value) => { s with pending := none }.record o value

/-- Takes a flag. -/
def takeFlag (s : State) (f : Flag) : Except UsageError State := do
  let s ← s.settle
  match f with
  | .help => .error .displayHelp
  | .version => .error .displayVersion
  | .symbolic => if s.symbolic then .error .argumentConflict else .ok { s with symbolic := true }
  | .calculus => if s.calculus then .error .argumentConflict else .ok { s with calculus := true }

/-- Takes an option with the value attached to it, if there is one. -/
def takeOption (s : State) (o : ValueOption) (attached : Option String) :
    Except UsageError State := do
  let s ← s.settle
  match attached with
  | some value => s.record o value
  | none => .ok { s with pending := some (o, none) }

/-- Takes an argument after two hyphens, as a name with an optional value after an equals sign. -/
def takeLong (s : State) (name : String) (attached : Option String) : Except UsageError State :=
  match ofLongName? name, attached with
  | some (.option o), _ => s.takeOption o attached
  | some (.flag f), none => s.takeFlag f
  | some (.flag _), some _ => .error .tooManyValues
  | none, _ => .error .unknownArgument

/-- Drops an equals sign before an attached value. -/
def attachedValue : List Char → List Char
  | '=' :: value => value
  | value => value

/-- Takes the letters after one hyphen: flags, and at last perhaps an option, to which what
follows is attached. -/
def takeShort (s : State) : List Char → Except UsageError State
  | [] => .ok s
  | c :: cs =>
    match ofShortName? c with
    | some (.flag f) => do
      let s ← s.takeFlag f
      takeShort s cs
    | some (.option o) =>
      s.takeOption o (if cs.isEmpty then none else some (String.ofList (attachedValue cs)))
    | none => .error .unknownArgument

/-- Takes an argument that is no option: the expression. -/
def takeExpression (s : State) (arg : String) : Except UsageError State :=
  match s.expression with
  | some _ => .error .unknownArgument
  | none => do
    let s ← s.settle
    .ok { s with expression := some arg }

/-- Takes an argument that is neither a name nor a letter of an option: the value that the last
option waits for, or the expression. -/
def takePlain (s : State) (arg : String) : Except UsageError State :=
  match s.pending with
  | some (o, none) => .ok { s with pending := some (o, some arg) }
  | _ => s.takeExpression arg

/-- Takes one argument. -/
def take (s : State) (arg : String) : Except UsageError State :=
  if s.optionsEnded then s.takeExpression arg
  else
    match arg.toList with
    | ['-', '-'] => .ok { s with optionsEnded := true }
    | '-' :: '-' :: cs =>
      let name := String.ofList (cs.takeWhile (· != '='))
      match cs.dropWhile (· != '=') with
      | _ :: value => s.takeLong name (some (String.ofList value))
      | [] => s.takeLong name none
    | '-' :: c :: cs => s.takeShort (c :: cs)
    | _ => s.takePlain arg

/-- The arguments of a state at the end. -/
def finish (s : State) : Except UsageError Arguments := do
  let s ← s.settle
  match s.expression with
  | none => .error .missingRequiredArgument
  | some expression =>
    .ok ⟨expression, s.unknowns, s.bindings, s.symbolic, s.calculus, s.config, s.logLevel⟩

end State

/-- Reads the arguments of one run. -/
def read (args : List String) : Except UsageError Arguments := do
  let s ← args.foldlM State.take {}
  s.finish

end Arguments

end Calculator
