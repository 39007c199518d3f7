import TreeCompiler.Error
import TreeCompiler.Scope

/-!
# Checking the bodies of procedures

Every expression and every variable has a type, which is noted under the number of its node. The
operands of operators are integers, conditions are truth values, only integers are assigned, and
the arguments of a call are of the types of the parameters, which are compared as handles. A
reference parameter takes a plain variable.

The check stops at the first fault. A program without a proper main procedure is refused before
its bodies are looked at.
-/

namespace TreeCompiler

/-- The types of nodes, the last one noted first. -/
structure Annotations where
  entries : List (Nat × TypeId) := []
deriving DecidableEq, Inhabited

namespace Annotations

/-- The type noted for a node. -/
def find? (a : Annotations) (id : Nat) : Option TypeId := a.entries.lookup id

/-- Notes the type of a node. -/
def insert (a : Annotations) (id : Nat) (type : TypeId) : Annotations := ⟨(id, type) :: a.entries⟩

/-- The types of nodes in the order of their numbers. -/
def sorted (a : Annotations) : List (Nat × TypeId) := a.entries.mergeSort fun x y => x.1 ≤ y.1

end Annotations

/-- A check notes types and may stop at a fault. -/
abbrev Check (α : Type) : Type := StateT Annotations (Except (Located SemanticError)) α

namespace Check

variable {α : Type}

/-- Stops at a line. -/
def failAt (line : UInt32) (cause : SemanticError) : Check α := throw (.atLine line cause)

/-- Notes the type of a node, and goes on with it. -/
def note (mark : Mark) (type : TypeId) : Check TypeId := do
  modify (·.insert mark.id type)
  return type

end Check

section
variable (tables : Tables) (scope : ScopeId)

mutual

/-- The type of a variable. -/
def Variable.check : Variable → Check TypeId
  | .named mark name => do
    match tables.lookup scope name with
    | none => Check.failAt mark.line (.undefinedIdentifier name)
    | some (.var slot) => Check.note mark slot.type
    | some _ => Check.failAt mark.line (.notAVariable name)
  | .element mark array index => do
    let arrayType ← array.check
    let indexType ← index.check
    match tables.types.array? arrayType with
    | none => Check.failAt mark.line (.indexingNonArray arrayType)
    | some a =>
      if indexType ≠ .int then Check.failAt mark.line (.indexMustBeInteger indexType)
      else Check.note mark a.base

/-- The type of an expression. -/
def Expr.check : Expr → Check TypeId
  | .int mark _ => Check.note mark .int
  | .bool mark _ => Check.note mark .bool
  | .read mark source => do
    let type ← source.check
    Check.note mark type
  | .negate mark operand => do
    let type ← operand.check
    if type ≠ .int then Check.failAt mark.line (.unaryOperatorTypeMismatch type)
    else Check.note mark .int
  | .binary mark op left right => do
    let leftType ← left.check
    let rightType ← right.check
    if leftType ≠ .int ∨ rightType ≠ .int then
      Check.failAt mark.line (.binaryOperatorTypeMismatch op leftType rightType)
    else
      Check.note mark (if op.isComparison then .bool else .int)

end

/-- Checks the arguments of a call against the parameters, from a position on. -/
def checkArguments (line : UInt32) (callee : String) :
    Nat → List Slot → List Expr → Check Unit
  | position, parameter :: parameters, argument :: arguments => do
    if parameter.isReference && argument.variable?.isNone then
      Check.failAt line (.argumentMustBeAVariable callee position)
    else
      let type ← argument.check tables scope
      if type ≠ parameter.type then
        Check.failAt line (.argumentTypeMismatch callee position parameter.type type)
      else
        checkArguments line callee (position + 1) parameters arguments
  | _, _, _ => return

/-- Checks a call. -/
def checkCall (line : UInt32) (callee : String) (arguments : List Expr) : Check Unit :=
  match tables.lookup scope callee with
  | none => Check.failAt line (.undefinedIdentifier callee)
  | some (.procedure p) =>
    if p.parameters.length ≠ arguments.length then
      Check.failAt line
        (.argumentCountMismatch callee p.parameters.length arguments.length)
    else
      checkArguments tables scope line callee 1 p.parameters arguments
  | some _ => Check.failAt line (.notAProcedure callee)

mutual

/-- Checks a statement. -/
def Stmt.check : Stmt → Check Unit
  | .empty _ => return
  | .block _ body => checkStmts body
  | .assign mark target value => do
    let targetType ← target.check tables scope
    let valueType ← value.check tables scope
    if targetType ≠ valueType then
      Check.failAt mark.line (.assignmentHasDifferentTypes targetType valueType)
    else if targetType ≠ .int then
      Check.failAt mark.line (.assignmentRequiresInteger targetType)
  | .ifThen mark test thenPart => do
    let type ← test.check tables scope
    if type ≠ .bool then Check.failAt mark.line (.ifConditionMustBeBoolean type)
    else thenPart.check
  | .ifThenElse mark test thenPart elsePart => do
    let type ← test.check tables scope
    if type ≠ .bool then Check.failAt mark.line (.ifConditionMustBeBoolean type)
    else
      thenPart.check
      elsePart.check
  | .loop mark test body => do
    let type ← test.check tables scope
    if type ≠ .bool then Check.failAt mark.line (.whileConditionMustBeBoolean type)
    else body.check
  | .call mark callee arguments => checkCall tables scope mark.line callee arguments

/-- Checks a list of statements. -/
def checkStmts : List Stmt → Check Unit
  | [] => return
  | s :: rest => do
    s.check
    checkStmts rest

end

end

/-- Checks the body of a procedure in its scope. -/
def Procedure.check (tables : Tables) (p : Procedure) : Check Unit :=
  match tables.procedure? p.name with
  | none => Check.failAt p.mark.line (.undefinedIdentifier p.name)
  | some entry => checkStmts tables entry.scope p.body

/-- Checks that the main procedure is a procedure without parameters. -/
def Program.checkMain (tables : Tables) (p : Program) : Check Unit :=
  match tables.lookup .global mainName with
  | none => throw (.nowhere .mainMissing)
  | some (.procedure entry) =>
    if entry.parameters.isEmpty then return
    else
      let line := (p.procedures.find? (·.name == mainName)).map (·.mark.line)
      throw ⟨line, .mainMustNotHaveParameters⟩
  | some _ => throw (.nowhere .mainNotAProcedure)

/-- Checks a program against the tables of its declarations; the types of its nodes are the
result. -/
def Program.check (tables : Tables) (p : Program) : Except (Located SemanticError) Annotations := do
  let checks : Check Unit := do
    p.checkMain tables
    p.procedures.forM (Procedure.check tables)
  let (_, annotations) ← checks.run {}
  return annotations

end TreeCompiler
