import TreeCompiler.Error
import TreeCompiler.Pass

/-!
# Declaring what a program defines

All the types are entered into the global scope first, in order, so that a type may only use those
above it while a procedure may use every type. Then each procedure gets a scope of its own for its
parameters and local variables, and at last its name is entered into the global scope.

The name of the main procedure is free for that procedure only.
-/

namespace TreeCompiler

/-- The type that a written type stands for in a scope. Every array that is written is a type of
its own. -/
def TypeExpr.resolve (scope : ScopeId) : TypeExpr → Pass SemanticError TypeId
  | .named mark name => do
    match (← get).lookup scope name with
    | none => Pass.failAt mark.line (.undefinedIdentifier name)
    | some (.type id) => return id
    | some _ => Pass.failAt mark.line (.notAType name)
  | .array mark length base => do
    let base ← base.resolve scope
    let tables ← get
    match tables.types.addArray base length.toNat with
    | some (id, types) =>
      set { tables with types }
      return id
    | none => Pass.failAt mark.line (.arrayTooLarge length)

/-- Enters a name into a scope, which must not bind it yet. -/
def declareName (line : UInt32) (scope : ScopeId) (name : String) (entry : Entry) :
    Pass SemanticError Unit := do
  match (← get).enter scope name entry with
  | some tables => set tables
  | none => Pass.failAt line (.alreadyDeclared name)

/-- Refuses the name of the main procedure for anything else. -/
def refuseMainName (line : UInt32) (name : String) : Pass SemanticError Unit :=
  if name = mainName then Pass.failAt line .mainNotAProcedure else pure ()

/-- Declares a named type in the global scope. -/
def TypeDef.declare (d : TypeDef) : Pass SemanticError Unit := do
  refuseMainName d.mark.line d.name
  let id ← d.type.resolve .global
  declareName d.mark.line .global d.name (.type id)

/-- Declares a parameter in the scope of its procedure; an array can only be passed by reference. -/
def Parameter.declare (scope : ScopeId) (p : Parameter) : Pass SemanticError Slot := do
  refuseMainName p.mark.line p.name
  let type ← p.type.resolve scope
  if (← get).types.isArray type && !p.isReference then
    Pass.failAt p.mark.line (.mustBeReferenceParameter p.name)
  else
    let slot : Slot := { type, isReference := p.isReference }
    declareName p.mark.line scope p.name (.var slot)
    return slot

/-- Declares a local variable in the scope of its procedure. -/
def LocalVar.declare (scope : ScopeId) (v : LocalVar) : Pass SemanticError Unit := do
  refuseMainName v.mark.line v.name
  let type ← v.type.resolve scope
  declareName v.mark.line scope v.name (.var { type, isReference := false })

/-- Declares a procedure: what is in its scope first, then its name. -/
def Procedure.declare (p : Procedure) : Pass SemanticError Unit := do
  let (scope, tables) := (← get).newScope .global
  set tables
  let parameters ← p.parameters.mapM (Parameter.declare scope)
  p.locals.forM (LocalVar.declare scope)
  declareName p.mark.line .global p.name (.procedure { scope, parameters })

/-- Declares what a program defines: its types, then its procedures. -/
def Program.declare (p : Program) : Pass SemanticError Unit := do
  p.typeDefs.forM TypeDef.declare
  p.procedures.forM Procedure.declare

end TreeCompiler
