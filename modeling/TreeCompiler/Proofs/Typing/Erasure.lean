import TreeCompiler.Proofs.Scope.Erasure

/-!
# Checking without places

The check of a program looks at types, names and parameter lists, but not at where variables lie.  So it
has the same result, be it the types of the nodes or the first fault, on tables with the same erasure
(`Program.check_of_erase`).
-/

namespace TreeCompiler

section
variable (t : Tables) (scope : ScopeId)

mutual

/-- The check of a variable does not look at places. -/
lemma Variable.check_erase (v : Variable) : v.check t.erase scope = v.check t scope := by
  match v with
  | .named _ name =>
    rw [Variable.check, Variable.check, Tables.lookup_erase]
    cases t.lookup scope name with
    | none => rfl
    | some entry => cases entry <;> rfl
  | .element _ array index =>
    rw [Variable.check, Variable.check, array.check_erase, index.check_erase, Tables.types_erase]

/-- The check of an expression does not look at places. -/
lemma Expr.check_erase (e : Expr) : e.check t.erase scope = e.check t scope := by
  match e with
  | .int _ _ => rfl
  | .bool _ _ => rfl
  | .read _ source => rw [Expr.check, Expr.check, source.check_erase]
  | .negate _ operand => rw [Expr.check, Expr.check, operand.check_erase]
  | .binary _ _ left right =>
    rw [Expr.check, Expr.check, left.check_erase, right.check_erase]

end

/-- The check of arguments does not look at places. -/
lemma checkArguments_erase (line : UInt32) (callee : String) (position : Nat) (parameters : List Slot)
    (arguments : List Expr) :
    checkArguments t.erase scope line callee position (parameters.map Slot.erase) arguments =
      checkArguments t scope line callee position parameters arguments := by
  induction parameters generalizing position arguments with
  | nil => rfl
  | cons parameter parameters ih =>
    cases arguments with
    | nil => rfl
    | cons argument arguments =>
      have hreference : parameter.erase.isReference = parameter.isReference := rfl
      have htype : parameter.erase.type = parameter.type := rfl
      rw [List.map_cons, checkArguments, checkArguments, argument.check_erase, hreference, htype]
      simp only [ih]

/-- The check of a call does not look at places. -/
lemma checkCall_erase (line : UInt32) (callee : String) (arguments : List Expr) :
    checkCall t.erase scope line callee arguments = checkCall t scope line callee arguments := by
  unfold checkCall
  rw [Tables.lookup_erase]
  cases t.lookup scope callee with
  | none => rfl
  | some entry =>
    cases entry with
    | type => rfl
    | var => rfl
    | procedure p =>
      have hparameters : p.erase.parameters = p.parameters.map Slot.erase := rfl
      simp only [Option.map_some, Entry.erase, hparameters, List.length_map, checkArguments_erase]

mutual

/-- The check of a statement does not look at places. -/
lemma Stmt.check_erase (s : Stmt) : s.check t.erase scope = s.check t scope := by
  match s with
  | .empty _ => rfl
  | .block _ body => rw [Stmt.check, Stmt.check, checkStmts_erase body]
  | .assign _ target value =>
    rw [Stmt.check, Stmt.check, target.check_erase, value.check_erase]
  | .ifThen _ test thenPart =>
    rw [Stmt.check, Stmt.check, test.check_erase, thenPart.check_erase]
  | .ifThenElse _ test thenPart elsePart =>
    rw [Stmt.check, Stmt.check, test.check_erase, thenPart.check_erase, elsePart.check_erase]
  | .loop _ test body => rw [Stmt.check, Stmt.check, test.check_erase, body.check_erase]
  | .call mark callee arguments => rw [Stmt.check, Stmt.check, checkCall_erase]

/-- The check of a list of statements does not look at places. -/
lemma checkStmts_erase (body : List Stmt) : checkStmts t.erase scope body = checkStmts t scope body := by
  match body with
  | [] => rfl
  | s :: rest => rw [checkStmts, checkStmts, s.check_erase, checkStmts_erase rest]

end

end

/-- The check of a procedure does not look at places. -/
lemma Procedure.check_erase (t : Tables) (q : Procedure) : q.check t.erase = q.check t := by
  unfold check
  rw [Tables.procedure?_erase]
  cases t.procedure? q.name with
  | none => rfl
  | some e => exact checkStmts_erase t e.scope q.body

/-- The check of the main procedure does not look at places. -/
lemma Program.checkMain_erase (t : Tables) (p : Program) : p.checkMain t.erase = p.checkMain t := by
  unfold checkMain
  rw [Tables.lookup_erase]
  cases t.lookup .global mainName with
  | none => rfl
  | some entry =>
    cases entry with
    | type => rfl
    | var => rfl
    | procedure e =>
      have hempty : e.erase.parameters.isEmpty = e.parameters.isEmpty := List.isEmpty_map
      simp only [Option.map_some, Entry.erase, hempty]

/-- The check of a program does not look at places. -/
lemma Program.check_erase (t : Tables) (p : Program) : p.check t.erase = p.check t := by
  have hprocedures : Procedure.check t.erase = Procedure.check t := funext (Procedure.check_erase t)
  unfold check
  rw [checkMain_erase, hprocedures]

/-- The check of a program has the same result on tables with the same erasure. -/
theorem Program.check_of_erase {t t' : Tables} (h : t.erase = t'.erase) (p : Program) :
    p.check t = p.check t' := by
  rw [← check_erase t, h, check_erase]

end TreeCompiler
