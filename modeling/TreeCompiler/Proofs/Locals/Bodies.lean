import TreeCompiler.Proofs.Emission.Code
import TreeCompiler.Proofs.Locals.Mirror
import TreeCompiler.Proofs.Locals.Renamed

/-!
# Bodies under other names

Checking a body and emitting its code look names up and do nothing else with them.  Where the
names of the variables mean in other tables what they did under their old names
(`Tables.Relabels`), a body that passes does so under the new names as well, with the same types
and the same code.
-/

namespace TreeCompiler

variable {ρ : String → String} {scope : ScopeId} {t t' : Tables}

/-- In other tables, where the types are the same, the variables of a scope are found under new
names. -/
structure Tables.Relabels (ρ : String → String) (t : Tables) (scope : ScopeId) (t' : Tables) :
    Prop where
  types : t'.types = t.types
  var : ∀ n slot, t.lookup scope n = some (.var slot) → t'.lookup scope (ρ n) = some (.var slot)

/-- The procedures that some calls call are found under the same names in other tables. -/
def Tables.KeepsCallees (t : Tables) (scope : ScopeId) (t' : Tables)
    (calls : List (String × List Expr)) : Prop :=
  ∀ c ∈ calls, ∀ e, t.lookup scope c.1 = some (.procedure e) →
    t'.lookup scope c.1 = some (.procedure e)

/-- An expression is a plain variable whatever its variables are called. -/
@[simp] lemma Expr.variable?_rename (e : Expr) :
    Expr.variable? (e.rename ρ) = e.variable?.map (Variable.rename ρ) := by
  cases e <;> rfl

/-- A variable has the same mark under another name. -/
@[simp] lemma Variable.mark_rename (v : Variable) : (v.rename ρ).mark = v.mark := by
  cases v <;> rfl

/-! ### Checking -/

mutual

/-- A variable has the same type under another name. -/
lemma Variable.check_repeats (h : t.Relabels ρ scope t') (v : Variable) :
    Repeats ((v.rename ρ).check t' scope) (v.check t scope) := by
  match v with
  | .named mark name =>
    rw [Variable.rename, Variable.check, Variable.check]
    cases hfound : t.lookup scope name with
    | none => exact repeats_throw
    | some x =>
      cases x with
      | var slot =>
        rw [h.var name slot hfound]
        exact .refl _
      | type | procedure => exact repeats_throw
  | .element mark array index =>
    rw [Variable.rename, Variable.check, Variable.check, h.types]
    exact (array.check_repeats h).bind fun _ => (index.check_repeats h).bind fun _ => .refl _

/-- An expression has the same type under other names. -/
lemma Expr.check_repeats (h : t.Relabels ρ scope t') (e : Expr) :
    Repeats ((e.rename ρ).check t' scope) (e.check t scope) := by
  match e with
  | .int _ _ | .bool _ _ => exact .refl _
  | .read _ source =>
    rw [Expr.rename, Expr.check, Expr.check]
    exact (source.check_repeats h).bind fun _ => .refl _
  | .negate _ operand =>
    rw [Expr.rename, Expr.check, Expr.check]
    exact (operand.check_repeats h).bind fun _ => .refl _
  | .binary _ _ left right =>
    rw [Expr.rename, Expr.check, Expr.check]
    exact (left.check_repeats h).bind fun _ => (right.check_repeats h).bind fun _ => .refl _

end

/-- Arguments fit parameters under other names. -/
lemma checkArguments_repeats (h : t.Relabels ρ scope t') {line : UInt32} {callee : String}
    {position : Nat} (parameters : List Slot) (arguments : List Expr) :
    Repeats (checkArguments t' scope line callee position parameters (arguments.map (Expr.rename ρ)))
      (checkArguments t scope line callee position parameters arguments) := by
  induction parameters generalizing position arguments with
  | nil => exact .refl _
  | cons slot parameters ih =>
    cases arguments with
    | nil => exact .refl _
    | cons argument arguments =>
      rw [List.map_cons, checkArguments, checkArguments, Expr.variable?_rename, Option.isNone_map]
      split
      · exact repeats_throw
      · refine (argument.check_repeats h).bind fun type => ?_
        split
        · exact repeats_throw
        · exact ih arguments

/-- A call is one under other names. -/
lemma checkCall_repeats (h : t.Relabels ρ scope t') {line : UInt32} {callee : String}
    {arguments : List Expr}
    (hcallee : ∀ e, t.lookup scope callee = some (.procedure e) →
      t'.lookup scope callee = some (.procedure e)) :
    Repeats (checkCall t' scope line callee (arguments.map (Expr.rename ρ)))
      (checkCall t scope line callee arguments) := by
  unfold checkCall
  cases hfound : t.lookup scope callee with
  | none => exact repeats_throw
  | some x =>
    cases x with
    | procedure e =>
      rw [hcallee e hfound]
      dsimp only
      rw [List.length_map]
      split
      · exact repeats_throw
      · exact checkArguments_repeats h _ _
    | type | var => exact repeats_throw

mutual

/-- A statement obeys the rules under other names. -/
lemma Stmt.check_repeats (h : t.Relabels ρ scope t') (s : Stmt)
    (hcalls : t.KeepsCallees scope t' s.calls) :
    Repeats ((s.rename ρ).check t' scope) (s.check t scope) := by
  match s with
  | .empty _ => exact .refl _
  | .block _ body => exact checkStmts_repeats h body hcalls
  | .assign _ target value =>
    rw [Stmt.rename, Stmt.check, Stmt.check]
    exact (target.check_repeats h).bind fun _ => (value.check_repeats h).bind fun _ => .refl _
  | .ifThen _ test thenPart =>
    rw [Stmt.rename, Stmt.check, Stmt.check]
    refine (test.check_repeats h).bind fun type => ?_
    split
    · exact repeats_throw
    · exact thenPart.check_repeats h hcalls
  | .ifThenElse _ test thenPart elsePart =>
    rw [Stmt.rename, Stmt.check, Stmt.check]
    refine (test.check_repeats h).bind fun type => ?_
    split
    · exact repeats_throw
    · exact (thenPart.check_repeats h fun c hc => hcalls c (List.mem_append_left _ hc)).bind fun _ =>
        elsePart.check_repeats h fun c hc => hcalls c (List.mem_append_right _ hc)
  | .loop _ test body =>
    rw [Stmt.rename, Stmt.check, Stmt.check]
    refine (test.check_repeats h).bind fun type => ?_
    split
    · exact repeats_throw
    · exact body.check_repeats h hcalls
  | .call _ callee arguments =>
    exact checkCall_repeats h (hcalls (callee, arguments) List.mem_cons_self)

/-- Statements obey the rules under other names. -/
lemma checkStmts_repeats (h : t.Relabels ρ scope t') (body : List Stmt)
    (hcalls : t.KeepsCallees scope t' (callsOf body)) :
    Repeats (checkStmts t' scope (renameStmts ρ body)) (checkStmts t scope body) := by
  match body with
  | [] => exact .refl _
  | s :: rest =>
    rw [renameStmts, checkStmts, checkStmts]
    exact (s.check_repeats h fun c hc => hcalls c (List.mem_append_left _ hc)).bind fun _ =>
      checkStmts_repeats h rest fun c hc => hcalls c (List.mem_append_right _ hc)

end

/-! ### Emitting code -/

variable {types : Annotations}

/-- What is required is there under other names. -/
lemma repeats_require_bind {α α' β : Type} {error error' : EmissionError} {found : Option α}
    {found' : Option α'} {f : α → Emit β} {g : α' → Emit β}
    (h : ∀ a, found = some a → ∃ a', found' = some a' ∧ Repeats (g a') (f a)) :
    Repeats (Emit.require error' found' >>= g) (Emit.require error found >>= f) := by
  cases found with
  | none => exact repeats_throw
  | some a =>
    obtain ⟨a', rfl, hrepeats⟩ := h a rfl
    exact hrepeats

mutual

/-- A variable has the same code under another name. -/
lemma Variable.emit_repeats (h : t.Relabels ρ scope t') (v : Variable) :
    Repeats ((v.rename ρ).emit t' types scope) (v.emit t types scope) := by
  match v with
  | .named mark name =>
    rw [Variable.rename, Variable.emit, Variable.emit]
    cases hfound : t.lookup scope name with
    | none => exact repeats_throw
    | some x =>
      cases x with
      | var slot =>
        rw [h.var name slot hfound]
        exact repeats_require_bind fun offset hoffset => ⟨offset, hoffset, .refl _⟩
      | type | procedure => exact repeats_throw
  | .element mark array index =>
    rw [Variable.rename, Variable.emit, Variable.emit, h.types, Variable.mark_rename]
    exact (Repeats.refl _).bind fun _ => (Repeats.refl _).bind fun _ =>
      (array.emit_repeats h).bind fun _ => (index.emit_repeats h).bind fun _ => .refl _

/-- An expression has the same code under other names. -/
lemma Expr.emit_repeats (h : t.Relabels ρ scope t') (e : Expr) :
    Repeats ((e.rename ρ).emit t' types scope) (e.emit t types scope) := by
  match e with
  | .int _ _ | .bool _ _ => exact .refl _
  | .read _ source =>
    rw [Expr.rename, Expr.emit, Expr.emit]
    exact (source.emit_repeats h).bind fun _ => .refl _
  | .negate _ operand =>
    rw [Expr.rename, Expr.emit, Expr.emit]
    exact (operand.emit_repeats h).bind fun _ => .refl _
  | .binary _ _ left right =>
    rw [Expr.rename, Expr.emit, Expr.emit]
    exact (left.emit_repeats h).bind fun _ => (right.emit_repeats h).bind fun _ => .refl _

end

/-- A condition has the same code under other names. -/
lemma Expr.emitCondition_repeats (h : t.Relabels ρ scope t') {falseLabel : String} (test : Expr) :
    Repeats ((test.rename ρ).emitCondition t' types scope falseLabel)
      (test.emitCondition t types scope falseLabel) := by
  have hzero : Repeats (Expr.emitCondition.emitZeroTest t' types scope falseLabel (test.rename ρ))
      (Expr.emitCondition.emitZeroTest t types scope falseLabel test) := by
    unfold Expr.emitCondition.emitZeroTest
    exact (test.emit_repeats h).bind fun _ => .refl _
  cases test with
  | binary mark op left right =>
    rw [Expr.rename] at hzero ⊢
    unfold Expr.emitCondition
    dsimp only
    split
    · exact (left.emit_repeats h).bind fun _ => (right.emit_repeats h).bind fun _ => .refl _
    · exact hzero
  | int | bool | read | negate => exact hzero

/-- An assignment has the same code under other names. -/
lemma emitAssignment_repeats (h : t.Relabels ρ scope t') (target : Variable) (value : Expr) :
    Repeats (emitAssignment t' types scope (target.rename ρ) (value.rename ρ))
      (emitAssignment t types scope target value) := by
  unfold emitAssignment
  exact (target.emit_repeats h).bind fun _ => (value.emit_repeats h).bind fun _ => .refl _

/-- Arguments have the same code under other names. -/
lemma emitArguments_repeats (h : t.Relabels ρ scope t') {callee : String} (parameters : List Slot)
    (arguments : List Expr) :
    Repeats (emitArguments t' types scope callee parameters (arguments.map (Expr.rename ρ)))
      (emitArguments t types scope callee parameters arguments) := by
  induction parameters generalizing arguments with
  | nil => exact .refl _
  | cons slot parameters ih =>
    cases arguments with
    | nil => exact .refl _
    | cons argument arguments =>
      rw [List.map_cons, emitArguments, emitArguments, Expr.variable?_rename]
      split
      · refine repeats_require_bind fun v hv => ⟨v.rename ρ, by rw [hv]; rfl, ?_⟩
        exact (v.emit_repeats h).bind fun _ => (Repeats.refl _).bind fun _ =>
          (Repeats.refl _).bind fun _ => (ih arguments).bind fun _ => .refl _
      · exact (argument.emit_repeats h).bind fun _ => (Repeats.refl _).bind fun _ =>
          (Repeats.refl _).bind fun _ => (ih arguments).bind fun _ => .refl _

/-- Blaming a line does not matter. -/
lemma Repeats.atLine {α : Type} {x y : Emit α} (h : Repeats y x) (line : UInt32) :
    Repeats (Emit.atLine line y) (Emit.atLine line x) := by
  intro s r hr
  cases hx : x.run s with
  | error e =>
    have hfailed : (Emit.atLine line x).run s = .error (.atLine line e) :=
      congrArg (Except.mapError (Located.atLine line)) hx
    rw [hfailed] at hr
    cases hr
  | ok r' =>
    have hok : (Emit.atLine line x).run s = .ok r' :=
      congrArg (Except.mapError (Located.atLine line)) hx
    rw [hok] at hr
    cases hr
    exact congrArg (Except.mapError (Located.atLine line)) (h s _ hx)

/-- A call has the same code under other names. -/
lemma emitCall_repeats (hprocedure : ∀ n, t'.procedure? n = t.procedure? n)
    (h : t.Relabels ρ scope t')
    {callee : String} (arguments : List Expr) :
    Repeats (emitCall t' types scope callee (arguments.map (Expr.rename ρ)))
      (emitCall t types scope callee arguments) := by
  unfold emitCall
  rw [hprocedure]
  exact (Repeats.refl _).bind fun _ => (emitArguments_repeats h _ _).bind fun _ => .refl _

mutual

/-- A statement has the same code under other names. -/
lemma Stmt.emit_repeats (hprocedure : ∀ n, t'.procedure? n = t.procedure? n)
    (h : t.Relabels ρ scope t') (s : Stmt) :
    Repeats ((s.rename ρ).emit t' types scope) (s.emit t types scope) := by
  match s with
  | .empty _ => exact .refl _
  | .block _ body => exact emitStmts_repeats hprocedure h body
  | .assign mark target value => exact (emitAssignment_repeats h target value).atLine mark.line
  | .ifThen mark test thenPart =>
    rw [Stmt.rename, Stmt.emit, Stmt.emit]
    exact (Repeats.refl _).bind fun _ =>
      ((test.emitCondition_repeats h).atLine mark.line).bind fun _ =>
      (thenPart.emit_repeats hprocedure h).bind fun _ => .refl _
  | .ifThenElse mark test thenPart elsePart =>
    rw [Stmt.rename, Stmt.emit, Stmt.emit]
    exact (Repeats.refl _).bind fun _ => (Repeats.refl _).bind fun _ =>
      ((test.emitCondition_repeats h).atLine mark.line).bind fun _ =>
      (thenPart.emit_repeats hprocedure h).bind fun _ =>
        (elsePart.emit_repeats hprocedure h).bind fun _ => .refl _
  | .loop mark test body =>
    rw [Stmt.rename, Stmt.emit, Stmt.emit]
    exact (Repeats.refl _).bind fun _ => (Repeats.refl _).bind fun _ =>
      ((test.emitCondition_repeats h).atLine mark.line).bind fun _ =>
      (body.emit_repeats hprocedure h).bind fun _ => .refl _
  | .call mark callee arguments => exact (emitCall_repeats hprocedure h arguments).atLine mark.line

/-- Statements have the same code under other names. -/
lemma emitStmts_repeats (hprocedure : ∀ n, t'.procedure? n = t.procedure? n)
    (h : t.Relabels ρ scope t') (body : List Stmt) :
    Repeats (emitStmts t' types scope (renameStmts ρ body)) (emitStmts t types scope body) := by
  match body with
  | [] => exact .refl _
  | s :: rest =>
    rw [renameStmts, emitStmts, emitStmts]
    exact (s.emit_repeats hprocedure h).bind fun _ =>
      (emitStmts_repeats hprocedure h rest).bind fun _ => .refl _

end

end TreeCompiler
