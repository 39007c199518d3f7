import TreeCompiler.Proofs.Scope.Declarable

/-!
# Procedures with other names for their variables

The parameters and the local variables of a procedure can be given other names, in their
declarations and where the body uses them (`Procedure.rename`).  Nothing else of the text changes,
and the same procedures are called.  The names may not be taken by something that the procedure
uses (`Procedure.Renamable`).
-/

namespace TreeCompiler

/-! ### Trees -/

section
variable (ρ : String → String)

mutual

/-- A variable with another name. -/
def Variable.rename : Variable → Variable
  | .named mark name => .named mark (ρ name)
  | .element mark array index => .element mark array.rename index.rename

/-- An expression with other names for the variables. -/
def Expr.rename : Expr → Expr
  | .int mark value => .int mark value
  | .bool mark value => .bool mark value
  | .read mark source => .read mark source.rename
  | .negate mark operand => .negate mark operand.rename
  | .binary mark op left right => .binary mark op left.rename right.rename

end

mutual

/-- A statement with other names for the variables. -/
def Stmt.rename : Stmt → Stmt
  | .empty mark => .empty mark
  | .block mark body => .block mark (renameStmts body)
  | .assign mark target value => .assign mark (target.rename ρ) (value.rename ρ)
  | .ifThen mark test thenPart => .ifThen mark (test.rename ρ) thenPart.rename
  | .ifThenElse mark test thenPart elsePart =>
    .ifThenElse mark (test.rename ρ) thenPart.rename elsePart.rename
  | .loop mark test body => .loop mark (test.rename ρ) body.rename
  | .call mark callee arguments => .call mark callee (arguments.map (Expr.rename ρ))

/-- Statements with other names for the variables. -/
def renameStmts : List Stmt → List Stmt
  | [] => []
  | s :: rest => s.rename :: renameStmts rest

end

/-- A parameter with another name. -/
def Parameter.rename (x : Parameter) : Parameter := { x with name := ρ x.name }

/-- A local variable with another name. -/
def LocalVar.rename (v : LocalVar) : LocalVar := { v with name := ρ v.name }

/-- A procedure with other names for its parameters and its local variables, where they are declared
and where the body uses them. -/
def Procedure.rename (q : Procedure) : Procedure :=
  { q with
    parameters := q.parameters.map (Parameter.rename ρ)
    locals := q.locals.map (LocalVar.rename ρ)
    body := renameStmts ρ q.body }

/-- The variables of a procedure can have other names: these are different, none of them is that
of the main procedure, and none of them is the name of a type or of a procedure that the procedure
uses. -/
structure Procedure.Renamable (q : Procedure) : Prop where
  injective : ∀ d ∈ q.decls, ∀ d' ∈ q.decls, ρ d.name = ρ d'.name → d.name = d'.name
  notMain : ∀ d ∈ q.decls, ρ d.name ≠ mainName
  notType : ∀ d ∈ q.decls, ∀ d' ∈ q.decls, ρ d.name ≠ d'.type.root
  notCallee : ∀ d ∈ q.decls, ∀ c ∈ q.calls, ρ d.name ≠ c.1

end

section
variable {ρ : String → String}

/-! ### Calls -/

mutual

/-- The calls of a statement with other names. -/
lemma Stmt.calls_rename (s : Stmt) :
    (s.rename ρ).calls = s.calls.map fun c => (c.1, c.2.map (Expr.rename ρ)) := by
  match s with
  | .empty _ | .assign _ _ _ | .call _ _ _ => rfl
  | .block _ body => exact callsOf_renameStmts body
  | .ifThen _ _ thenPart => exact thenPart.calls_rename
  | .ifThenElse _ _ thenPart elsePart =>
    rw [Stmt.rename, Stmt.calls, Stmt.calls, List.map_append, thenPart.calls_rename,
      elsePart.calls_rename]
  | .loop _ _ body => exact body.calls_rename

/-- The calls of statements with other names. -/
lemma callsOf_renameStmts (body : List Stmt) :
    callsOf (renameStmts ρ body) = (callsOf body).map fun c => (c.1, c.2.map (Expr.rename ρ)) := by
  match body with
  | [] => rfl
  | s :: rest =>
    rw [renameStmts, callsOf, callsOf, List.map_append, s.calls_rename, callsOf_renameStmts rest]

end

/-! ### The same names -/

mutual

/-- A variable with the same name is the same. -/
lemma Variable.rename_id (v : Variable) : v.rename id = v := by
  match v with
  | .named _ _ => rfl
  | .element _ array index => rw [Variable.rename, array.rename_id, index.rename_id]

/-- An expression with the same names is the same. -/
lemma Expr.rename_id (e : Expr) : e.rename id = e := by
  match e with
  | .int _ _ | .bool _ _ => rfl
  | .read _ source => rw [Expr.rename, source.rename_id]
  | .negate _ operand => rw [Expr.rename, operand.rename_id]
  | .binary _ _ left right => rw [Expr.rename, left.rename_id, right.rename_id]

end

mutual

/-- A statement with the same names is the same. -/
lemma Stmt.rename_id (s : Stmt) : s.rename id = s := by
  match s with
  | .empty _ => rfl
  | .block _ body => rw [Stmt.rename, renameStmts_id body]
  | .assign _ target value => rw [Stmt.rename, target.rename_id, value.rename_id]
  | .ifThen _ test thenPart => rw [Stmt.rename, test.rename_id, thenPart.rename_id]
  | .ifThenElse _ test thenPart elsePart =>
    rw [Stmt.rename, test.rename_id, thenPart.rename_id, elsePart.rename_id]
  | .loop _ test body => rw [Stmt.rename, test.rename_id, body.rename_id]
  | .call _ _ arguments =>
    rw [Stmt.rename, List.map_congr_left fun e _ => e.rename_id, List.map_id']

/-- Statements with the same names are the same. -/
lemma renameStmts_id (body : List Stmt) : renameStmts id body = body := by
  match body with
  | [] => rfl
  | s :: rest => rw [renameStmts, s.rename_id, renameStmts_id rest]

end

/-- A procedure whose variables have the same names is the same. -/
lemma Procedure.rename_id (q : Procedure) : q.rename id = q := by
  have hparameters : q.parameters.map (Parameter.rename id) = q.parameters := List.map_id _
  have hlocals : q.locals.map (LocalVar.rename id) = q.locals := List.map_id _
  unfold rename
  rw [hparameters, hlocals, renameStmts_id]

/-- Different variables have different names. -/
lemma Procedure.Renamable.injective_names {q : Procedure} (hq : q.Renamable ρ) :
    ∀ m ∈ q.decls.map VariableDecl.name, ∀ m' ∈ q.decls.map VariableDecl.name,
    ρ m = ρ m' → m = m' := by
  intro m hm m' hm' heq
  obtain ⟨d, hd, rfl⟩ := List.mem_map.mp hm
  obtain ⟨d', hd', rfl⟩ := List.mem_map.mp hm'
  exact hq.injective d hd d' hd' heq

end

end TreeCompiler
