import TreeCompiler.Assembly.Instruction
import TreeCompiler.Assembly.RegisterStack
import TreeCompiler.Error
import TreeCompiler.Scope
import TreeCompiler.Typing

/-!
# Emitting code

The code of an expression leaves its value in the next free register of the bank; that of a
variable leaves its address there. An operator combines the two topmost registers into the lower
one. Nothing is spilled, so an expression that is nested too deeply is refused.

The condition of a statement branches past the guarded code if it does not hold. Arguments are
stored into the bottom of the caller's frame, where the callee finds them above its frame pointer.

Every construct has a fragment of code of its own, put together from the fragments of its parts;
what is threaded through is the `Cursor`: the registers in use and the number of the next label.
-/

namespace TreeCompiler

/-- A piece of code. -/
abbrev Code : Type := List Instruction

/-- The registers in use and the number of the next label. The number is assumed not to wrap around,
as a word of 32 bits would after `2 ^ 32` labels; a program with fewer nodes than that takes fewer
labels too (`Program.counters_fit`). -/
structure Cursor where
  registers : RegisterStack
  nextLabel : Nat
deriving DecidableEq, Inhabited

/-- The cursor at the start of a program. -/
def Cursor.start : Cursor :=
  ⟨.ofBank Register.firstFree.number Register.lastFree.number, 0⟩

/-- A computation on the cursor that may fail with a cause of type `ε`. -/
abbrev EmitWith (ε α : Type) : Type := StateT Cursor (Except ε) α

/-- A computation on the cursor. -/
abbrev Emit (α : Type) : Type := EmitWith EmissionError α

/-- A computation on the cursor that tells where it fails. -/
abbrev EmitAt (α : Type) : Type := EmitWith (Located EmissionError) α

namespace Emit

/-- The same computation, which blames a line for its failure. -/
def atLine {α : Type} (line : UInt32) (e : Emit α) : EmitAt α :=
  fun cursor => (e cursor).mapError (.atLine line)

/-- Puts the next register into use. -/
def push : Emit Register := do
  let cursor ← get
  match cursor.registers.push with
  | none => throw .registerOverflow
  | some (r, registers) =>
    set { cursor with registers }
    return ⟨r⟩

/-- Takes back the register that was put into use last. -/
def pop : Emit Unit := do
  let cursor ← get
  match cursor.registers.pop with
  | none => throw .registerUnderflow
  | some (_, registers) => set { cursor with registers }

/-- A new label. -/
def newLabel {ε : Type} : EmitWith ε String := do
  let cursor ← get
  set { cursor with nextLabel := cursor.nextLabel + 1 }
  return "L" ++ toString cursor.nextLabel

/-- The value that is there, or the failure for one that is missing. -/
def require {α : Type} (error : EmissionError) : Option α → Emit α
  | some a => return a
  | none => throw error

end Emit

namespace BinaryOp

/-- The instruction of an operator that computes an integer. -/
def arith? : BinaryOp → Option ArithOp
  | add => some .add
  | sub => some .sub
  | mul => some .mul
  | div => some .div
  | eq | ne | lt | le | gt | ge => none

/-- The branch that is taken if a comparison does not hold. -/
def inverseBranch : BinaryOp → BranchOp
  | eq => .ne
  | ne => .eq
  | lt => .ge
  | le => .gt
  | gt => .le
  | ge | add | sub | mul | div => .lt

end BinaryOp

/-- The code that puts an integer into a register. -/
def loadInteger (target : Register) (value : Int) : Instruction :=
  .arith .add target .zero (.integer value)

section
variable (tables : Tables) (types : Annotations) (scope : ScopeId)

mutual

/-- The code for the address of a variable. An index is compared as unsigned, so that a negative
one is out of range too. -/
def Variable.emit : Variable → Emit (Register × Code)
  | .named _ name => do
    match tables.lookup scope name with
    | some (.var slot) =>
      let offset ← Emit.require (.missingOffset name) slot.offset
      let r ← Emit.push
      return (r, .arith .add r .fp (.integer offset) ::
        if slot.isReference then [.load r r 0] else [])
    | _ => throw (.unknownSymbol name)
  | .element _ array index => do
    let missing := .missingType array.mark.id
    let arrayType ← Emit.require missing (types.find? array.mark.id)
    let info ← Emit.require missing (tables.types.array? arrayType)
    let (base, baseCode) ← array.emit
    let (i, indexCode) ← index.emit
    let bound ← Emit.push
    Emit.pop
    Emit.pop
    return (base, baseCode ++ indexCode ++
      [loadInteger bound info.length,
        .branch .geUnsigned i bound indexErrorLabel,
        .arith .mul i i (.integer (tables.types.byteSize info.base)),
        .arith .add base base (.register i)])

/-- The code for the value of an expression. A comparison gives 0 or 1. -/
def Expr.emit : Expr → Emit (Register × Code)
  | .int _ value => do
    let r ← Emit.push
    return (r, [loadInteger r value.toInt])
  | .bool _ value => do
    let r ← Emit.push
    return (r, [loadInteger r (if value then 1 else 0)])
  | .read _ source => do
    let (r, code) ← source.emit
    return (r, code ++ [.load r r 0])
  | .negate _ operand => do
    let (r, code) ← operand.emit
    return (r, code ++ [.arith .sub r .zero (.register r)])
  | .binary _ op left right => do
    let (l, leftCode) ← left.emit
    let (r, rightCode) ← right.emit
    let code ← match op.arith? with
      | some arith => pure [.arith arith l l (.register r)]
      | none => do
        let falseLabel ← Emit.newLabel
        let endLabel ← Emit.newLabel
        pure [.branch op.inverseBranch l r falseLabel,
          loadInteger l 1,
          .jump endLabel,
          .label falseLabel,
          loadInteger l 0,
          .label endLabel]
    Emit.pop
    return (l, leftCode ++ rightCode ++ code)

end

/-- The code that branches to a label if a condition does not hold. -/
def Expr.emitCondition (falseLabel : String) (test : Expr) : Emit Code :=
  match test with
  | .binary _ op left right =>
    if op.isComparison then do
      let (l, leftCode) ← left.emit tables types scope
      let (r, rightCode) ← right.emit tables types scope
      Emit.pop
      Emit.pop
      return leftCode ++ rightCode ++ [.branch op.inverseBranch l r falseLabel]
    else emitZeroTest
  | _ => emitZeroTest
where
  /-- The code that evaluates the condition and compares it with 0. -/
  emitZeroTest : Emit Code := do
    let (r, code) ← test.emit tables types scope
    Emit.pop
    return code ++ [.branch .eq r .zero falseLabel]

/-- The code of an assignment: the address first, then the value. -/
def emitAssignment (target : Variable) (value : Expr) : Emit Code := do
  let (address, addressCode) ← target.emit tables types scope
  let (r, valueCode) ← value.emit tables types scope
  Emit.pop
  Emit.pop
  return addressCode ++ valueCode ++ [.store r address 0]

/-- The code that stores arguments where the callee finds its parameters. -/
def emitArguments (callee : String) : List Slot → List Expr → Emit Code
  | parameter :: parameters, argument :: arguments => do
    let (r, code) ← if parameter.isReference then do
        let v ← Emit.require (.referenceArgumentNotVariable callee) argument.variable?
        v.emit tables types scope
      else
        argument.emit tables types scope
    let offset ← Emit.require (.missingOffset callee) parameter.offset
    Emit.pop
    let rest ← emitArguments callee parameters arguments
    return code ++ .store r .sp offset :: rest
  | _, _ => return []

/-- The code of a call. -/
def emitCall (callee : String) (arguments : List Expr) : Emit Code := do
  let entry ← Emit.require (.unknownSymbol callee) (tables.procedure? callee)
  let code ← emitArguments tables types scope callee entry.parameters arguments
  return code ++ [.call callee]

mutual

/-- The code of a statement. -/
def Stmt.emit : Stmt → EmitAt Code
  | .empty _ => return []
  | .block _ body => emitStmts body
  | .assign mark target value =>
    Emit.atLine mark.line (emitAssignment tables types scope target value)
  | .ifThen mark test thenPart => do
    let endLabel ← Emit.newLabel
    let testCode ← Emit.atLine mark.line (test.emitCondition tables types scope endLabel)
    let thenCode ← thenPart.emit
    return testCode ++ thenCode ++ [.label endLabel]
  | .ifThenElse mark test thenPart elsePart => do
    let elseLabel ← Emit.newLabel
    let endLabel ← Emit.newLabel
    let testCode ← Emit.atLine mark.line (test.emitCondition tables types scope elseLabel)
    let thenCode ← thenPart.emit
    let elseCode ← elsePart.emit
    return testCode ++ thenCode ++ [.jump endLabel, .label elseLabel] ++ elseCode ++
      [.label endLabel]
  | .loop mark test body => do
    let testLabel ← Emit.newLabel
    let endLabel ← Emit.newLabel
    let testCode ← Emit.atLine mark.line (test.emitCondition tables types scope endLabel)
    let bodyCode ← body.emit
    return .label testLabel :: testCode ++ bodyCode ++ [.jump testLabel, .label endLabel]
  | .call mark callee arguments =>
    Emit.atLine mark.line (emitCall tables types scope callee arguments)

/-- The code of a list of statements. -/
def emitStmts : List Stmt → EmitAt Code
  | [] => return []
  | s :: rest => do
    let code ← s.emit
    let restCode ← emitStmts rest
    return code ++ restCode

end

end

/-- The code that enters a procedure: it makes the frame and saves the caller's registers. -/
def enterCode (frame oldFramePointer oldReturnAddress : Int) (savesReturn : Bool) : Code :=
  [.arith .sub .sp .sp (.integer frame), .store .fp .sp oldFramePointer,
    .arith .add .fp .sp (.integer frame)] ++
    if savesReturn then [.store .ra .fp oldReturnAddress] else []

/-- The code that leaves a procedure: it restores the caller's registers and drops the frame. -/
def leaveCode (frame oldFramePointer oldReturnAddress : Int) (savesReturn : Bool) : Code :=
  (if savesReturn then [.load .ra .fp oldReturnAddress] else []) ++
    [.load .fp .sp oldFramePointer, .arith .add .sp .sp (.integer frame), .jumpRegister .ra]

/-- The code of a procedure. -/
def Procedure.emit (tables : Tables) (types : Annotations) (p : Procedure) : EmitAt Code := do
  let (entry, frame, oldFp, oldRa) ← Emit.atLine p.mark.line do
    let entry ← Emit.require (.unknownSymbol p.name) (tables.procedure? p.name)
    let missing := .missingLayout p.name
    let frame ← Emit.require missing entry.layout.frameSize
    let oldFp ← Emit.require missing entry.layout.oldFramePointer
    let oldRa ← Emit.require missing entry.layout.oldReturnAddress
    return (entry, frame, oldFp, oldRa)
  let savesReturn := entry.layout.makesCalls
  let body ← emitStmts tables types entry.scope p.body
  return [.exports p.name, .label p.name] ++ enterCode frame oldFp oldRa savesReturn ++ body ++
    leaveCode frame oldFp oldRa savesReturn

/-- The code of a list of procedures. -/
def emitProcedures (tables : Tables) (types : Annotations) : List Procedure → EmitAt Code
  | [] => return []
  | p :: rest => do
    let code ← p.emit tables types
    let restCode ← emitProcedures tables types rest
    return code ++ restCode

/-- The head of an assembly file: it imports the runtime library and opens the code. -/
def headCode : Code :=
  runtimeProcedures.map (fun r => .imports r.name) ++ [.imports indexErrorLabel, .code, .align 4]

/-- A compiled program, and how many registers of the bank were in use at the same time. -/
structure Assembly where
  code : Code
  registersUsed : Nat
deriving DecidableEq, Inhabited

/-- The text of the assembly file. -/
def Assembly.text (a : Assembly) : String := assemblyText a.code

/-- Emits the code of a program whose frames are allocated. -/
def Program.emit (tables : Tables) (types : Annotations) (p : Program) :
    Except (Located EmissionError) Assembly := do
  let (code, cursor) ← (emitProcedures tables types p.procedures).run .start
  return ⟨headCode ++ code, cursor.registers.highWater⟩

end TreeCompiler
