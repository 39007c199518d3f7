import TreeCompiler.Compilation

/-!
# The arguments of the command line

The arguments are read one after the other. An option with a value takes it from the same argument
or from the next one, unless that looks like an option itself. What is given too often, or with a
value that it does not allow, is found at the end.
-/

namespace TreeCompiler.CommandLine

/-- The options that take a value. -/
inductive ValueOption where
  | input | output | stopAfter | logLevel
deriving DecidableEq, Inhabited

/-- The options without a value. -/
inductive Switch where
  | tables | vars
deriving DecidableEq, Inhabited

/-- Why the arguments do not make a command. Asking for help or for the version ends the reading of
the arguments as well. -/
inductive UsageError where
  | missingInput
  | unknownArgument
  /-- An option with a value that has none. -/
  | emptyValue
  | invalidValue
  /-- An option that is given more than once. -/
  | repeatedOption
  | help
  | version
deriving DecidableEq, Inhabited

/-- How much is logged. -/
inductive LogLevel where
  | error | warn | info | debug | trace
deriving DecidableEq, Inhabited

/-- The level of a name. -/
def LogLevel.ofName? (name : String) : Option LogLevel :=
  if name = "error" then some error
  else if name = "warn" then some warn
  else if name = "info" then some info
  else if name = "debug" then some debug
  else if name = "trace" then some trace
  else none

/-- What the command line asks for. -/
structure Options where
  input : String
  output : Option String
  showTables : Bool
  showVars : Bool
  stop : Stage
  log : Option LogLevel
deriving DecidableEq, Inhabited

namespace ValueOption

/-- The options that take a value, in order. -/
def all : List ValueOption := [input, output, stopAfter, logLevel]

/-- The option of a long name. -/
def ofName? (name : List Char) : Option ValueOption :=
  if name = "input".toList then some input
  else if name = "output".toList then some output
  else if name = "stop-after".toList then some stopAfter
  else if name = "log-level".toList then some logLevel
  else none

/-- The option of a letter. -/
def ofLetter? (letter : Char) : Option ValueOption :=
  if letter = 'i' then some input else if letter = 'o' then some output else none

/-- Whether an option allows a value. The last stage cannot be asked for, since nothing comes after
it. -/
def allows : ValueOption → String → Bool
  | input, _ | output, _ => true
  | stopAfter, value =>
    match Stage.ofName? value with
    | some stage => stage ≠ .codegen
    | none => false
  | logLevel, value => (LogLevel.ofName? value).isSome

end ValueOption

/-- The option without a value of a long name. -/
def Switch.ofName? (name : List Char) : Option Switch :=
  if name = "tables".toList then some tables
  else if name = "vars".toList then some vars
  else none

/-- What is read of the arguments. -/
structure Scan where
  /-- The option whose value may come next. -/
  awaiting : Option ValueOption := none
  /-- Whether only arguments that are no options may follow. -/
  isOver : Bool := false
  /-- The options with values, once for each time that they are given. -/
  uses : List ValueOption := []
  /-- Their values, in order. -/
  values : List (ValueOption × String) := []
  switches : List Switch := []
deriving DecidableEq, Inhabited

namespace Scan

/-- Adds a value of an option. Equals signs in front of it do not count. -/
def addValue (s : Scan) (o : ValueOption) (value : List Char) : Scan :=
  { s with values := s.values ++ [(o, String.ofList (value.dropWhile (· = '=')))] }

/-- Reads an option with a value that is part of the argument, or else comes next. -/
def addOption (s : Scan) (o : ValueOption) (value : Option (List Char)) : Scan :=
  let s := { s with uses := o :: s.uses }
  match value with
  | some value => s.addValue o value
  | none => { s with awaiting := some o }

/-- Reads an option with a long name. -/
def long (s : Scan) (argument : List Char) : Except UsageError Scan :=
  let body := argument.dropWhile (· = '-')
  let name := body.takeWhile (· ≠ '=')
  let value := (body.dropWhile (· ≠ '=')).tail?
  match ValueOption.ofName? name, Switch.ofName? name with
  | some o, _ => .ok (s.addOption o value)
  | none, some w => .ok { s with switches := w :: s.switches }
  | none, none =>
    if name = "help".toList then .error .help
    else if name = "version".toList then .error .version
    else .error .unknownArgument

/-- Reads an option of one letter, with the rest of the argument as its value. -/
def short (s : Scan) (letter : Char) (rest : List Char) : Except UsageError Scan :=
  match ValueOption.ofLetter? letter with
  | some o => .ok (s.addOption o (if rest.isEmpty then none else some rest))
  | none =>
    if letter = 'h' then .error .help
    else if letter = 'V' then .error .version
    else .error .unknownArgument

/-- Whether an argument looks like an option. A hyphen alone does not. -/
def isOption : List Char → Bool
  | '-' :: _ :: _ => true
  | _ => false

/-- Reads an argument. -/
def step (s : Scan) (argument : String) : Except UsageError Scan :=
  let text := argument.toList
  if s.isOver then .error .unknownArgument
  else if text = ['-', '-'] then .ok { s with isOver := true }
  else
    match s.awaiting, isOption text with
    | some o, false =>
      .ok { s with awaiting := none, values := s.values ++ [(o, argument)] }
    | _, _ =>
      let s := { s with awaiting := none }
      match text with
      | '-' :: '-' :: _ => s.long text
      | '-' :: letter :: rest => s.short letter rest
      | _ => .error .unknownArgument

/-- The values of an option, in order. -/
def valuesOf (s : Scan) (o : ValueOption) : List String :=
  (s.values.filter (·.1 = o)).map Prod.snd

/-- The first value of an option. -/
def value? (s : Scan) (o : ValueOption) : Option String := s.values.lookup o

/-- Checks how an option is given, if it is. -/
def checkOption (s : Scan) (o : ValueOption) : Except UsageError Unit :=
  if s.uses.count o = 0 then .ok ()
  else if (s.valuesOf o).isEmpty then .error .emptyValue
  else if (s.valuesOf o).any (!o.allows ·) then .error .invalidValue
  else if s.uses.count o > 1 then .error .repeatedOption
  else .ok ()

/-- Checks how often an option without a value is given. -/
def checkSwitch (s : Scan) (w : Switch) : Except UsageError Unit :=
  if s.switches.count w > 1 then .error .repeatedOption else .ok ()

/-- Checks the option that still awaits its value. -/
def checkAwaiting (s : Scan) : Except UsageError Unit :=
  match s.awaiting with
  | some o => if (s.valuesOf o).isEmpty then .error .emptyValue else .ok ()
  | none => .ok ()

/-- The command behind the last argument. -/
def finish (s : Scan) : Except UsageError Options := do
  if ¬s.uses.contains .input then throw .missingInput
  s.checkAwaiting
  ValueOption.all.forM s.checkOption
  s.checkSwitch .tables
  s.checkSwitch .vars
  return {
    input := (s.value? .input).getD ""
    output := s.value? .output
    showTables := s.switches.contains .tables
    showVars := s.switches.contains .vars
    stop := ((s.value? .stopAfter).bind Stage.ofName?).getD .codegen
    log := (s.value? .logLevel).bind LogLevel.ofName? }

end Scan

/-- Reads the arguments of a command. -/
def Options.ofArguments (arguments : List String) : Except UsageError Options := do
  let s ← arguments.foldlM Scan.step {}
  s.finish

end TreeCompiler.CommandLine
