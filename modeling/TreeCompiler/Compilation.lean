import TreeCompiler.Assembly.Emission
import TreeCompiler.Declaration
import TreeCompiler.Frame.Allocation

/-!
# Compiling a program

A program is compiled in four stages: its definitions are declared, its bodies are checked, its
stack frames are allocated, and its code is emitted. The first failure ends the compilation, and
later stages do not run; so does the stage that one asks to stop after.
-/

namespace TreeCompiler

/-- A stage of the compilation. -/
inductive Stage where
  | tables | semant | vars | codegen
deriving DecidableEq, Inhabited

namespace Stage

/-- The place of a stage in the order of the stages. -/
def rank : Stage → Nat
  | tables => 0
  | semant => 1
  | vars => 2
  | codegen => 3

/-- The stage of a name. -/
def ofName? (name : String) : Option Stage :=
  if name = "tables" then some tables
  else if name = "semant" then some semant
  else if name = "vars" then some vars
  else if name = "codegen" then some codegen
  else none

/-- What is said about a name that no stage has. -/
def unknownMessage (name : String) : String := "Unknown stage: " ++ name

end Stage

/-- What was computed up to a stage. -/
structure Compilation where
  stage : Stage
  tables : Tables
  annotations : Option Annotations := none
  assembly : Option Assembly := none
deriving DecidableEq, Inhabited

/-- A compilation that failed: the status to end with, and the message. -/
structure Failure where
  exitCode : Nat
  message : String
deriving DecidableEq, Inhabited

/-- The failure of a pass. A message that cannot be put together is replaced by the reason. -/
def Failure.ofLocated {ε : Type} [Diagnostic ε] (types : TypeTable) (e : Located ε) : Failure :=
  ⟨e.exitCode,
    match e.message types with
    | .ok text => text
    | .error unknown => unknown.message ++ " (while rendering an error)"⟩

/-- The tables that a pass leaves behind, or its failure. -/
def Pass.tables {ε : Type} [Diagnostic ε] (p : Pass ε Unit) (t : Tables) : Except Failure Tables :=
  match p.runOn t with
  | (.ok (), t) => .ok t
  | (.error e, t) => .error (.ofLocated t.types e)

/-- The result of a stage, or its failure. -/
def reportFailure {ε α : Type} [Diagnostic ε] (t : Tables) (r : Except (Located ε) α) :
    Except Failure α :=
  r.mapError (.ofLocated t.types)

/-- Compiles a program up to and including a stage. -/
def compile (p : Program) (stop : Stage) : Except Failure Compilation := do
  let declared ← p.declare.tables .predefined
  if stop = .tables then return { stage := .tables, tables := declared }
  let annotations ← reportFailure declared (p.check declared)
  if stop = .semant then
    return { stage := .semant, tables := declared, annotations := some annotations }
  let allocated ← p.allocate.tables declared
  if stop = .vars then
    return { stage := .vars, tables := allocated, annotations := some annotations }
  let assembly ← reportFailure allocated (p.emit allocated annotations)
  return { stage := .codegen, tables := allocated, annotations := some annotations,
           assembly := some assembly }

end TreeCompiler
