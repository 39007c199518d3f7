import TreeCompiler.CommandLine.Arguments
import TreeCompiler.Report
import TreeCompiler.Tree.Format

/-!
# Running a command

A command reads a tree, compiles it, shows the reports that are asked for, and writes the assembly
to a file or shows it. Files are reached through `FileAccess`, so that a command can run on the
files of the system as well as on a `Directory` in memory.
-/

namespace TreeCompiler.CommandLine

/-- What opening a file for reading comes to. -/
inductive Opened where
  | missing (reason : String)
  /-- Something that can be opened and not read, such as a directory. -/
  | unreadable
  | content (bytes : List UInt8)

/-- How a command reaches files. -/
structure FileAccess (m : Type → Type) where
  read : String → m Opened
  /-- Writes a file, or tells why it cannot. -/
  write : String → String → m (Except String Unit)

/-- What a command shows, and the status that it ends with. -/
structure Outcome where
  exitCode : Nat
  stdout : String := ""
  stderr : String := ""
deriving DecidableEq, Inhabited

/-- The name and the version of the program. -/
def versionText : String := "SPL Compiler 0.1.0"

/-- How the program is used. -/
def usageText : String :=
  "usage: --input FILE [--output FILE] [--tables] [--vars] " ++
    "[--stop-after tables|semant|vars] [--log-level error|warn|info|debug|trace]"

/-- The status of a command that could not be understood. -/
def usageStatus : Nat := 1

/-- The status of a failure to reach a file. -/
def fileStatus : Nat := 2

/-- The status of a failure to read a tree. -/
def treeStatus : Nat := 3

/-- What is said about arguments that make no command. -/
def UsageError.message : UsageError → String
  | .missingInput => "the option --input is missing"
  | .unknownArgument => "there is an argument that is not known"
  | .emptyValue => "there is an option without its value"
  | .invalidValue => "there is an option with a value that it does not allow"
  | .repeatedOption => "there is an option that is given more than once"
  | .help => usageText
  | .version => versionText

namespace Outcome

/-- The end of a command that failed. -/
def failure (exitCode : Nat) (message : String) : Outcome :=
  { exitCode, stderr := "error: " ++ message ++ "\n" }

/-- The end of a command whose arguments make no command. -/
def ofUsageError (e : UsageError) : Outcome :=
  match e with
  | .help | .version => { exitCode := 0, stdout := e.message ++ "\n" }
  | _ => failure usageStatus e.message

end Outcome

/-- The program in a file that was opened. -/
def readTree (path : String) (format : Format) : Opened → Except Outcome Program
  | .missing reason =>
    .error (.failure fileStatus ("could not open " ++ path ++ ": " ++ reason))
  | .unreadable => .error (.failure treeStatus format.invalidMessage)
  | .content bytes =>
    (Program.read bytes format).mapError fun _ => .failure treeStatus format.invalidMessage

/-- The format of a file. -/
def formatOf (path : String) : Except Outcome Format :=
  match Format.ofPath? path with
  | some format => .ok format
  | none =>
    .error (.failure treeStatus
      ("cannot tell the format of " ++ path ++ ": expected a .json, .yaml, or .yml file"))

/-- The reports on a program that are asked for. The report on frames needs their sizes. -/
def reports (o : Options) (p : Program) (c : Compilation) : Except Outcome String := do
  let scopes ←
    if o.showTables then
      (p.scopeReport c.tables).mapError fun unknown => .failure fileStatus unknown.message
    else pure ""
  let frames := if o.showVars ∧ Stage.vars.rank ≤ c.stage.rank then p.frameReport c.tables else ""
  return scopes ++ frames

/-- Compiles a program; the result is the text to show, and the assembly to write or to show
behind it. -/
def compileAndReport (o : Options) (p : Program) : Except Outcome (String × Option String) := do
  let compilation ← (compile p o.stop).mapError fun f => .failure f.exitCode f.message
  let shown ← reports o p compilation
  return (shown, compilation.assembly.map Assembly.text)

variable {m : Type → Type} [Monad m]

/-- Writes the assembly where it is asked for. -/
def deliver (files : FileAccess m) (o : Options) (shown assembly : String) : m Outcome :=
  match o.output with
  | none => pure { exitCode := 0, stdout := shown ++ assembly }
  | some path => do
    match ← files.write path assembly with
    | .ok () => return { exitCode := 0, stdout := shown }
    | .error reason =>
      return { Outcome.failure fileStatus ("could not write assembly: " ++ reason) with
        stdout := shown }

/-- Does what a command asks for. -/
def runOptions (files : FileAccess m) (o : Options) : m Outcome :=
  match formatOf o.input with
  | .error outcome => pure outcome
  | .ok format => do
    let opened ← files.read o.input
    match readTree o.input format opened >>= compileAndReport o with
    | .error outcome => return outcome
    | .ok (shown, none) => return { exitCode := 0, stdout := shown }
    | .ok (shown, some assembly) => deliver files o shown assembly

/-- Runs a command. -/
def run (files : FileAccess m) (arguments : List String) : m Outcome :=
  match Options.ofArguments arguments with
  | .ok o => runOptions files o
  | .error e => pure (.ofUsageError e)

end TreeCompiler.CommandLine
