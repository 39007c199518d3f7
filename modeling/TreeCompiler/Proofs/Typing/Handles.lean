import TreeCompiler.Proofs.Scope.Growth
import TreeCompiler.Proofs.Threading
import TreeCompiler.Typing

/-!
# The types that faults name

The message of a fault shows types, each of which must exist to have a name (`SemanticError.types`,
`SemanticError.exists_message`).  No fault of a declaration shows any (`Program.declare_namesNoTypes`).
A check gives types that exist, and shows no others in its fault, provided that all the types exist
that the tables speak of (`Program.types_of_check`).
-/

namespace TreeCompiler

/-! ### Messages -/

/-- The types that a message shows. -/
def SemanticError.types : SemanticError → List TypeId
  | assignmentHasDifferentTypes target value => [target, value]
  | argumentTypeMismatch _ _ expected found => [expected, found]
  | binaryOperatorTypeMismatch _ left right => [left, right]
  | assignmentRequiresInteger found | ifConditionMustBeBoolean found
  | whileConditionMustBeBoolean found | unaryOperatorTypeMismatch found | indexingNonArray found
  | indexMustBeInteger found => [found]
  | undefinedIdentifier _ | notAType _ | alreadyDeclared _ | mustBeReferenceParameter _
  | notAProcedure _ | argumentMustBeAVariable _ _ | argumentCountMismatch _ _ _ | notAVariable _
  | mainMissing | mainNotAProcedure | mainMustNotHaveParameters | arrayTooLarge _ => []

/-- A fault has a message if the types that it shows have names. -/
lemma SemanticError.exists_message {table : TypeTable} {e : SemanticError}
    (h : ∀ id ∈ e.types, ∃ name, table.name id = .ok name) : ∃ text, e.message table = .ok text := by
  cases e with
  | assignmentHasDifferentTypes left right | argumentTypeMismatch _ _ left right
  | binaryOperatorTypeMismatch _ left right =>
    obtain ⟨leftName, hleft⟩ := h left List.mem_cons_self
    obtain ⟨rightName, hright⟩ := h right (List.mem_cons_of_mem _ List.mem_cons_self)
    simp only [message, hleft, hright]
    exact ⟨_, rfl⟩
  | assignmentRequiresInteger found | ifConditionMustBeBoolean found
  | whileConditionMustBeBoolean found | unaryOperatorTypeMismatch found | indexingNonArray found
  | indexMustBeInteger found =>
    obtain ⟨name, hname⟩ := h found List.mem_cons_self
    simp only [message, hname]
    exact ⟨_, rfl⟩
  | _ => exact ⟨_, rfl⟩

/-! ### Declarations -/

/-- A pass that fails shows no types. -/
def Pass.NamesNoTypes {α : Type} (s : Pass SemanticError α) : Prop :=
  ∀ t, s.Ends t (fun _ _ => True) fun e _ => e.cause.types = []

namespace Pass.NamesNoTypes

variable {α β γ : Type} {s : Pass SemanticError α}

/-- A sequence shows no types if its parts show none. -/
lemma bind {f : α → Pass SemanticError β} (hs : s.NamesNoTypes) (hf : ∀ a, (f a).NamesNoTypes) :
    NamesNoTypes (s >>= f) := by
  intro t
  rw [Step.ends_bind]
  exact (hs t).mono (fun a t' _ => hf a t') fun _ _ h => h

/-- Reading the tables cannot fail. -/
lemma get : NamesNoTypes (MonadState.get : Pass SemanticError Tables) := fun _ => trivial

/-- Writing the tables cannot fail. -/
lemma set (t' : Tables) : NamesNoTypes (MonadState.set t' : Pass SemanticError PUnit) :=
  fun _ => trivial

/-- A list of steps shows no types if the steps show none. -/
lemma forM {f : γ → Pass SemanticError PUnit} (l : List γ) (hf : ∀ c, (f c).NamesNoTypes) :
    NamesNoTypes (l.forM f) := fun _ =>
  (Step.ends_forM (fun _ _ => True) l trivial fun _ c _ _ t' _ => hf c t').mono
    (fun _ _ _ => trivial) fun _ _ h => h

/-- A list of steps with results shows no types if the steps show none. -/
lemma mapM {f : γ → Pass SemanticError β} (l : List γ) (hf : ∀ c, (f c).NamesNoTypes) :
    NamesNoTypes (l.mapM f) := fun _ =>
  (Step.ends_mapM (fun _ _ _ => True) l trivial fun _ c _ _ _ t' _ => hf c t').mono
    (fun _ _ _ => trivial) fun _ _ h => h

end Pass.NamesNoTypes

section
variable {scope : ScopeId} {name : String} {entry : Entry} {line : UInt32}

/-- Resolving a written type shows no types. -/
lemma TypeExpr.resolve_namesNoTypes (e : TypeExpr) : (e.resolve scope).NamesNoTypes := by
  induction e with
  | named mark name =>
    refine .bind .get fun t => ?_
    split
    · exact fun _ => rfl
    · exact fun _ => trivial
    · exact fun _ => rfl
  | array mark length base ih =>
    refine .bind ih fun id => .bind .get fun t => ?_
    split
    · exact .bind (.set _) fun _ _ => trivial
    · exact fun _ => rfl

/-- Declaring a name shows no types. -/
lemma declareName_namesNoTypes : (declareName line scope name entry).NamesNoTypes := by
  refine .bind .get fun t => ?_
  split
  · exact .set _
  · exact fun _ => rfl

/-- Refusing a name shows no types. -/
lemma refuseMainName_namesNoTypes : (refuseMainName line name).NamesNoTypes := by
  unfold refuseMainName
  split
  · exact fun _ => rfl
  · exact fun _ => trivial

/-- Declaring a parameter shows no types. -/
lemma Parameter.declare_namesNoTypes (p : Parameter) : (p.declare scope).NamesNoTypes := by
  refine .bind refuseMainName_namesNoTypes fun _ => .bind p.type.resolve_namesNoTypes fun id =>
    .bind .get fun t => ?_
  split
  · exact fun _ => rfl
  · exact .bind declareName_namesNoTypes fun _ _ => trivial

/-- Declaring a program shows no types. -/
lemma Program.declare_namesNoTypes (p : Program) : p.declare.NamesNoTypes := by
  refine .bind (.forM _ fun d => ?_) fun _ => .forM _ fun q => ?_
  · exact .bind refuseMainName_namesNoTypes fun _ => .bind d.type.resolve_namesNoTypes fun _ =>
      declareName_namesNoTypes
  · exact .bind .get fun _ => .bind (.set _) fun _ =>
      .bind (.mapM _ fun x => x.declare_namesNoTypes) fun _ => .bind (.forM _ fun v =>
        .bind refuseMainName_namesNoTypes fun _ => .bind v.type.resolve_namesNoTypes fun _ =>
          declareName_namesNoTypes) fun _ => declareName_namesNoTypes

end

/-! ### Checks -/

/-- How a check ends: its result satisfies a condition, or the types that its fault shows exist. -/
def Check.Within {α : Type} (types : TypeTable) (x : Check α) (ok : α → Prop) : Prop :=
  ∀ a, Runs x a (fun v _ => ok v) fun e => ∀ id ∈ e.cause.types, types.contains id = true

namespace Check.Within

variable {α β : Type} {types : TypeTable} {x y : Check α} {ok : α → Prop} {ok' : β → Prop}

/-- A result of which the condition holds. -/
lemma pure {v : α} (h : ok v) : Within types (Pure.pure v) ok := fun _ => h

/-- A fault that shows types that exist. -/
lemma failAt {line : UInt32} {cause : SemanticError}
    (h : ∀ id ∈ cause.types, types.contains id = true) :
    Within types (Check.failAt line cause : Check α) ok := fun _ => h

/-- A fault that shows no types. -/
lemma failAt_nil {line : UInt32} {cause : SemanticError} (hcause : cause.types = []) :
    Within types (Check.failAt line cause : Check α) ok :=
  failAt fun _ hid => absurd (hcause ▸ hid) List.not_mem_nil

/-- A fault that shows two types that exist. -/
lemma failAt_pair {line : UInt32} {cause : SemanticError} {left right : TypeId}
    (hcause : cause.types = [left, right]) (hleft : types.contains left = true)
    (hright : types.contains right = true) :
    Within types (Check.failAt line cause : Check α) ok := by
  refine failAt ?_
  rw [hcause]
  exact List.forall_mem_cons.mpr ⟨hleft, List.forall_mem_singleton.mpr hright⟩

/-- A type that is noted is the result. -/
lemma note {mark : Mark} {type : TypeId} (h : types.contains type = true) :
    Within types (Check.note mark type) (types.contains · = true) := fun _ => h

/-- A sequence ends as its second part does after the first one. -/
lemma bind {f : α → Check β} (hx : Within types x ok) (hf : ∀ v, ok v → Within types (f v) ok') :
    Within types (x >>= f) ok' := by
  intro a
  rw [runs_bind]
  exact (hx a).mono (fun v b hv => hf v hv b) fun _ h => h

/-- A choice ends as one of the two. -/
lemma ite {c : Prop} [Decidable c] (hx : Within types x ok) (hy : Within types y ok) :
    Within types (if c then x else y) ok := by
  split
  · exact hx
  · exact hy

/-- A list of checks. -/
lemma forM {γ : Type} {f : γ → Check Unit} (l : List γ)
    (hf : ∀ c, Within types (f c) fun _ => True) : Within types (l.forM f) fun _ => True := by
  induction l with
  | nil => exact .pure trivial
  | cons c l ih => exact .bind (hf c) fun _ _ => ih

end Check.Within

section
variable {tables : Tables} {scope : ScopeId}

mutual

/-- The type of a variable exists. -/
lemma Variable.check_within (h : tables.TypesExist) (v : Variable) :
    Check.Within tables.types (v.check tables scope) (tables.types.contains · = true) := by
  match v with
  | .named mark name =>
    rw [Variable.check]
    split
    · exact .failAt_nil rfl
    · rename_i slot hslot
      exact .note (h.lookup hslot _ List.mem_cons_self)
    · exact .failAt_nil rfl
  | .element mark array index =>
    rw [Variable.check]
    refine .bind (array.check_within h) fun arrayType harray =>
      .bind (index.check_within h) fun indexType hindex => ?_
    split
    · exact .failAt (List.forall_mem_singleton.mpr harray)
    · rename_i a ha
      exact .ite (.failAt (List.forall_mem_singleton.mpr hindex))
        (.note (h.elements a (TypeTable.mem_toList_of_array? ha)))

/-- The type of an expression exists. -/
lemma Expr.check_within (h : tables.TypesExist) (e : Expr) :
    Check.Within tables.types (e.check tables scope) (tables.types.contains · = true) := by
  match e with
  | .int mark value => exact .note (Tables.contains_int _)
  | .bool mark value => exact .note (Tables.contains_bool _)
  | .read mark source =>
    rw [Expr.check]
    exact .bind (source.check_within h) fun _ htype => .note htype
  | .negate mark operand =>
    rw [Expr.check]
    exact .bind (operand.check_within h) fun _ htype =>
      .ite (.failAt (List.forall_mem_singleton.mpr htype)) (.note (Tables.contains_int _))
  | .binary mark op left right =>
    rw [Expr.check]
    refine .bind (left.check_within h) fun _ hleft => .bind (right.check_within h) fun _ hright =>
      .ite (.failAt_pair rfl hleft hright) (.note ?_)
    split
    · exact Tables.contains_bool _
    · exact Tables.contains_int _

end

/-- The types that a fault of the arguments of a call shows exist. -/
lemma checkArguments_within (h : tables.TypesExist) {line : UInt32} {callee : String}
    {parameters : List Slot} (hparameters : ∀ s ∈ parameters, tables.types.contains s.type = true)
    (position : Nat) (arguments : List Expr) : Check.Within tables.types
      (checkArguments tables scope line callee position parameters arguments) fun _ => True := by
  induction parameters generalizing position arguments with
  | nil => cases arguments <;> exact .pure trivial
  | cons parameter parameters ih =>
    obtain ⟨hparameter, hparameters⟩ := List.forall_mem_cons.mp hparameters
    cases arguments with
    | nil => exact .pure trivial
    | cons argument arguments =>
      rw [checkArguments]
      exact .ite (.failAt_nil rfl) <|
        .bind (argument.check_within h) fun _ htype =>
          .ite (.failAt_pair rfl hparameter htype) (ih hparameters _ _)

/-- The types that a fault of a call shows exist. -/
lemma checkCall_within (h : tables.TypesExist) {line : UInt32} {callee : String}
    {arguments : List Expr} :
    Check.Within tables.types (checkCall tables scope line callee arguments) fun _ => True := by
  unfold checkCall
  split
  · exact .failAt_nil rfl
  · rename_i entry hentry
    exact .ite (.failAt_nil rfl) <|
      checkArguments_within h (List.forall_mem_map.mp (h.lookup hentry)) _ _
  · exact .failAt_nil rfl

mutual

/-- The types that a fault of a statement shows exist. -/
lemma Stmt.check_within (h : tables.TypesExist) (s : Stmt) :
    Check.Within tables.types (s.check tables scope) fun _ => True := by
  match s with
  | .empty mark => exact .pure trivial
  | .block mark body => exact checkStmts_within h body
  | .assign mark target value =>
    rw [Stmt.check]
    exact .bind (target.check_within h) fun _ htarget => .bind (value.check_within h) fun _ hvalue =>
      .ite (.failAt_pair rfl htarget hvalue) <|
        .ite (.failAt (List.forall_mem_singleton.mpr htarget)) (.pure trivial)
  | .ifThen mark test thenPart =>
    rw [Stmt.check]
    exact .bind (test.check_within h) fun _ htype =>
      .ite (.failAt (List.forall_mem_singleton.mpr htype)) (thenPart.check_within h)
  | .ifThenElse mark test thenPart elsePart =>
    rw [Stmt.check]
    exact .bind (test.check_within h) fun _ htype =>
      .ite (.failAt (List.forall_mem_singleton.mpr htype)) <|
        .bind (thenPart.check_within h) fun _ _ => elsePart.check_within h
  | .loop mark test body =>
    rw [Stmt.check]
    exact .bind (test.check_within h) fun _ htype =>
      .ite (.failAt (List.forall_mem_singleton.mpr htype)) (body.check_within h)
  | .call mark callee arguments => exact checkCall_within h

/-- The types that a fault of statements shows exist. -/
lemma checkStmts_within (h : tables.TypesExist) (body : List Stmt) :
    Check.Within tables.types (checkStmts tables scope body) fun _ => True := by
  match body with
  | [] => exact .pure trivial
  | s :: rest =>
    rw [checkStmts]
    exact .bind (s.check_within h) fun _ _ => checkStmts_within h rest

end

/-- The types that a fault of a procedure shows exist. -/
lemma Procedure.check_within (h : tables.TypesExist) (q : Procedure) :
    Check.Within tables.types (q.check tables) fun _ => True := by
  unfold Procedure.check
  split
  · exact .failAt_nil rfl
  · exact checkStmts_within h q.body

/-- A fault of the main procedure shows no types. -/
lemma Program.checkMain_within (p : Program) :
    Check.Within tables.types (p.checkMain tables) fun _ => True := by
  unfold checkMain
  split
  · exact fun _ _ hid => absurd hid List.not_mem_nil
  · exact .ite (.pure trivial) fun _ _ hid => absurd hid List.not_mem_nil
  · exact fun _ _ hid => absurd hid List.not_mem_nil

/-- If the types exist that the tables speak of, then so do those that the fault of a program shows
that is checked against them. -/
lemma Program.types_of_check {p : Program} {e : Located SemanticError} (h : tables.TypesExist)
    (he : p.check tables = .error e) : ∀ id ∈ e.cause.types, tables.types.contains id = true := by
  have hwithin : Check.Within tables.types (do
      p.checkMain tables
      p.procedures.forM (Procedure.check tables)) fun _ => True :=
    .bind p.checkMain_within fun _ _ => .forM _ fun q => q.check_within h
  refine (hwithin {}).of_error ?_
  unfold check at he
  dsimp only at he
  generalize StateT.run _ _ = r at he ⊢
  cases r with
  | error e' =>
    cases he
    rfl
  | ok r => cases he

end

end TreeCompiler
