import TreeCompiler.Error
import TreeCompiler.Pass
import TreeCompiler.Scope
import TreeCompiler.Tree.Basic

/-!
# Allocating stack frames

Parameters lie above the frame pointer, the first one at offset 0; local variables lie below it,
each one below the one before. Once the argument area of every procedure is known, the area for
outgoing arguments of each procedure is as large as the largest argument area of its callees.

Offsets are computed from the sizes alone, so that earlier allocations do not matter. A failure
leaves in the tables what was allocated before it.

What an allocator logs while it runs is left out, since no result depends on it. See `placeLocals`
for the one place where a log line could go wrong.
-/

namespace TreeCompiler

/-! ### Arguments -/

/-- Places parameters one above the other from an offset on. The result holds where the last one
ends, unless that does not fit into a word; then the parameters from there on keep their offsets. -/
def placeParameters (types : TypeTable) : Int → List Slot → List Slot × Option Int
  | offset, [] => ([], some offset)
  | offset, s :: rest =>
    match Word.check (offset + s.passingSize types) with
    | none => (s :: rest, none)
    | some next =>
      let (placed, stop) := placeParameters types next rest
      ({ s with offset := some offset } :: placed, stop)

/-- Allocates the argument area of a procedure; the result is the offsets of its parameters. -/
def allocateArguments (name : String) : Step FrameError (List Int) := do
  let tables ← get
  match tables.procedure? name with
  | none => throw (.unknownProcedure name)
  | some entry =>
    match placeParameters tables.types 0 entry.parameters with
    | (placed, none) =>
      set (tables.modifyProcedure name fun p => { p with parameters := placed })
      throw (.frameTooLarge name)
    | (placed, some size) =>
      set (tables.modifyProcedure name fun p =>
        { p with parameters := placed, layout := { p.layout with arguments := some size } })
      return placed.filterMap Slot.offset

/-! ### Variables -/

/-- The variable that a procedure's own scope binds a name to. -/
def ownVariable (procedure : String) (scope : ScopeId) (name : String) : Step FrameError Slot := do
  match ((← get).scope scope).findVar? name with
  | some slot => return slot
  | none => throw (.unknownVariable procedure name)

/-- Gives the variables of parameters their offsets, as far as there are offsets. -/
def setOffsets (procedure : String) (scope : ScopeId) :
    List Parameter → List Int → Step FrameError Unit
  | p :: parameters, offset :: offsets => do
    let _ ← ownVariable procedure scope p.name
    modify (·.setOffset scope p.name offset)
    setOffsets procedure scope parameters offsets
  | _, _ => return

/-- Places local variables one below the other from an offset on; the result is where the last one
starts.

A log line that told how far below the frame pointer each variable lies would negate `next` as soon as
it is stored. That overflows for a variable at `Word.min`, whose offset still passes the check here; the
frame is refused only after the last variable, when the size of the whole area is checked. -/
def placeLocals (procedure : String) (scope : ScopeId) :
    Int → List LocalVar → Step FrameError Int
  | offset, [] => return offset
  | offset, v :: rest => do
    let slot ← ownVariable procedure scope v.name
    match Word.check (offset - (← get).types.byteSize slot.type) with
    | none => throw (.frameTooLarge procedure)
    | some next =>
      modify (·.setOffset scope v.name next)
      placeLocals procedure scope next rest

/-- Makes sure that the variable of each parameter has the offset that its procedure lists. -/
def checkOffsets (procedure : String) (own : Scope) :
    List Parameter → List Slot → Except FrameError Unit
  | p :: parameters, s :: slots => do
    let offset := (own.findVar? p.name).bind Slot.offset
    if offset ≠ s.offset then throw (.inconsistentOffset procedure p.name offset s.offset)
    else checkOffsets procedure own parameters slots
  | _, _ => return

/-- Allocates the parameters and the local variables of a procedure. -/
def Procedure.allocateVariables (p : Procedure) : Step FrameError Unit := do
  let offsets ← allocateArguments p.name
  match (← get).procedure? p.name with
  | none => throw (.unknownProcedure p.name)
  | some entry =>
    setOffsets p.name entry.scope p.parameters offsets
    let lowest ← placeLocals p.name entry.scope 0 p.locals
    match Word.check (-lowest) with
    | none => throw (.frameTooLarge p.name)
    | some size =>
      modify (·.modifyProcedure p.name fun q =>
        { q with layout := { q.layout with locals := some size } })
      let tables ← get
      match tables.procedure? p.name with
      | none => throw (.unknownProcedure p.name)
      | some entry =>
        match checkOffsets p.name (tables.scope entry.scope) p.parameters entry.parameters with
        | .ok () => return
        | .error e => throw e

/-! ### Outgoing arguments -/

/-- The argument area of a callee, if it is known. -/
def Tables.argumentArea? (t : Tables) (callee : String) : Option Int :=
  (t.procedure? callee).bind (·.layout.arguments)

/-- The area that the calls of a body need, and the last callee whose argument area is unknown. -/
def Tables.outgoingArea (t : Tables) :
    List (String × List Expr) → OutgoingArea × Option String :=
  List.foldl
    (fun (area, missing) (callee, _) =>
      match t.argumentArea? callee with
      | some size => (.bytes (max size area.size), missing)
      | none => (area, some callee))
    (.noCalls, none)

/-- Allocates the area in which a procedure passes arguments, and makes sure that its frame fits. -/
def Procedure.allocateOutgoing (p : Procedure) : Step FrameError Unit := do
  let tables ← get
  match tables.outgoingArea p.calls with
  | (_, some callee) => throw (.missingArgumentArea callee)
  | (area, none) =>
    match tables.procedure? p.name with
    | none => throw (.unknownProcedure p.name)
    | some entry =>
      let layout := { entry.layout with outgoing := some area }
      set (tables.modifyProcedure p.name fun q => { q with layout })
      if layout.frameSize.isNone || layout.oldReturnAddress.isNone then
        throw (.frameTooLarge p.name)

/-! ### Programs -/

/-- Allocates the stack frames of a program, after the argument areas of the runtime library. -/
def Program.allocate (p : Program) : Pass FrameError Unit := do
  runtimeProcedures.forM fun r => Step.nowhere (discard (allocateArguments r.name))
  p.procedures.forM fun q => Step.atLine q.mark.line q.allocateVariables
  p.procedures.forM fun q => Step.atLine q.mark.line q.allocateOutgoing

end TreeCompiler
