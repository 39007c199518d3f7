import TreeCompiler.Proofs.Emission.Program
import TreeCompiler.Proofs.Order.Numbered
import TreeCompiler.Proofs.Typing.Decision

/-!
# The first fault

A check looks neither at what has been noted before nor at the numbers of the nodes
(`Check.Alike`), so that how the check of a statement ends depends on the tables alone.  The check
of a program therefore stops at the first faulty statement of the first faulty procedure, and what
is behind it does not matter (`Program.check_first_fault`).
-/

namespace TreeCompiler

/-! ### Results without notes -/

/-- How a check ends, without what it has noted. -/
def Check.result {α : Type} (x : Check α) : Except (Located SemanticError) α :=
  (x.run {}).map Prod.fst

/-- Two checks end alike, whatever has been noted before. -/
def Check.Alike {α : Type} (x y : Check α) : Prop :=
  ∀ a b, (x.run a).map Prod.fst = (y.run b).map Prod.fst

namespace Check.Alike

variable {α β : Type} {x x' y y' : Check α} {f g : α → Check β}

/-- Checks that end alike have the same result. -/
lemma result_eq (h : Alike x y) : x.result = y.result := h {} {}

lemma symm (h : Alike x y) : Alike y x := fun a b => (h b a).symm

/-- A check that ends like another one does not depend on what has been noted before. -/
lemma left (h : Alike x y) : Alike x x := fun a b => (h a {}).trans (h b {}).symm

/-- A result is always the same. -/
lemma pure (v : α) : Alike (Pure.pure v) (Pure.pure v) := fun _ _ => rfl

/-- A fault is always the same. -/
lemma failAt (line : UInt32) (cause : SemanticError) :
    Alike (Check.failAt line cause : Check α) (Check.failAt line cause) := fun _ _ => rfl

/-- A type is the result whatever node it is noted for. -/
lemma note (mark mark' : Mark) (type : TypeId) :
    Alike (Check.note mark type) (Check.note mark' type) := fun _ _ => rfl

/-- Sequences end alike if their parts do. -/
lemma bind (h : Alike x y) (hf : ∀ v, Alike (f v) (g v)) : Alike (x >>= f) (y >>= g) := by
  intro a b
  have hfirst := h a b
  rw [StateT.run_bind, StateT.run_bind]
  generalize x.run a = r at hfirst ⊢
  generalize y.run b = r' at hfirst ⊢
  rcases r with e | ⟨v, a'⟩ <;> rcases r' with e' | ⟨v', b'⟩ <;> cases hfirst
  · rfl
  · exact hf v a' b'

/-- Checks that are chosen by the same condition end alike if both choices do. -/
lemma ite {p : Prop} [Decidable p] (h : Alike x y) (h' : Alike x' y') :
    Alike (if p then x else x') (if p then y else y') := by
  by_cases hp : p
  · rwa [if_pos hp, if_pos hp]
  · rwa [if_neg hp, if_neg hp]

/-- Lists of checks end alike if the checks do. -/
lemma forM {γ δ : Type} {f : γ → Check Unit} {g : δ → Check Unit} {l : List γ} {l' : List δ}
    (h : List.Forall₂ (fun c d => Alike (f c) (g d)) l l') : Alike (l.forM f) (l'.forM g) := by
  induction h with
  | nil => exact .pure _
  | cons hfirst _ ih => exact hfirst.bind fun _ => ih

end Check.Alike

section
variable {α β γ : Type} {x : Check α}

/-- The result of a sequence is that of the second part after that of the first. -/
lemma Check.result_bind {f : α → Check β} (hf : ∀ v, Check.Alike (f v) (f v)) :
    Check.result (x >>= f) = x.result >>= fun v => (f v).result := by
  unfold Check.result
  rw [StateT.run_bind]
  rcases x.run {} with e | ⟨v, a⟩
  · rfl
  · exact hf v a {}

/-- The result of a list of checks is put together from those of the checks. -/
lemma Check.result_forM {f : γ → Check Unit} {l : List γ} (hf : ∀ c ∈ l, Check.Alike (f c) (f c)) :
    Check.result (l.forM f) = l.forM fun c => (f c).result := by
  induction l with
  | nil => rfl
  | cons c l ih =>
    obtain ⟨-, hl⟩ := List.forall_mem_cons.mp hf
    rw [forM_cons_eq, forM_cons_eq, ← ih hl]
    exact Check.result_bind fun _ => .forM (List.forall₂_same.mpr hl)

end

/-! ### The numbers of nodes -/

section
variable {tables : Tables} {scope : ScopeId}

mutual

/-- The numbers of a variable do not matter for its check. -/
lemma Variable.check_number (v : Variable) (n : Nat) :
    Check.Alike ((v.number n).check tables scope) (v.check tables scope) := by
  match v with
  | .named mark name =>
    rw [Variable.number, Variable.check, Variable.check]
    split
    · exact .failAt _ _
    · exact .note _ _ _
    · exact .failAt _ _
  | .element mark array index =>
    rw [Variable.number, Variable.check, Variable.check]
    refine (array.check_number _).bind fun _ => (index.check_number _).bind fun _ => ?_
    split
    · exact .failAt _ _
    · exact .ite (.failAt _ _) (.note _ _ _)

/-- The numbers of an expression do not matter for its check. -/
lemma Expr.check_number (e : Expr) (n : Nat) :
    Check.Alike ((e.number n).check tables scope) (e.check tables scope) := by
  match e with
  | .int mark value => exact .note _ _ _
  | .bool mark value => exact .note _ _ _
  | .read mark source =>
    rw [Expr.number, Expr.check, Expr.check]
    exact (source.check_number _).bind fun _ => .note _ _ _
  | .negate mark operand =>
    rw [Expr.number, Expr.check, Expr.check]
    exact (operand.check_number _).bind fun _ => .ite (.failAt _ _) (.note _ _ _)
  | .binary mark op left right =>
    rw [Expr.number, Expr.check, Expr.check]
    exact (left.check_number _).bind fun _ => (right.check_number _).bind fun _ =>
      .ite (.failAt _ _) (.note _ _ _)

end

/-- The numbers of arguments do not matter for their check. -/
lemma checkArguments_number {line : UInt32} {callee : String} (parameters : List Slot)
    (arguments : List Expr) (position n : Nat) :
    Check.Alike (checkArguments tables scope line callee position parameters (numberExprs n arguments))
      (checkArguments tables scope line callee position parameters arguments) := by
  induction parameters generalizing arguments position n with
  | nil => cases arguments <;> exact .pure _
  | cons parameter parameters ih =>
    cases arguments with
    | nil => exact .pure _
    | cons argument arguments =>
      rw [numberExprs, numberList, checkArguments, checkArguments, argument.variable?_number,
        Option.isNone_map]
      exact .ite (.failAt _ _) <| (argument.check_number n).bind fun _ =>
        .ite (.failAt _ _) (ih arguments _ _)

mutual

/-- The numbers of a statement do not matter for its check. -/
lemma Stmt.check_number (s : Stmt) (n : Nat) :
    Check.Alike ((s.number n).check tables scope) (s.check tables scope) := by
  match s with
  | .empty mark => exact .pure _
  | .block mark body =>
    rw [Stmt.number, Stmt.check, Stmt.check]
    exact checkStmts_number body _
  | .assign mark target value =>
    rw [Stmt.number, Stmt.check, Stmt.check]
    exact (target.check_number _).bind fun _ => (value.check_number _).bind fun _ =>
      .ite (.failAt _ _) (.ite (.failAt _ _) (.pure _))
  | .ifThen mark test thenPart =>
    rw [Stmt.number, Stmt.check, Stmt.check]
    exact (test.check_number _).bind fun _ => .ite (.failAt _ _) (thenPart.check_number _)
  | .ifThenElse mark test thenPart elsePart =>
    rw [Stmt.number, Stmt.check, Stmt.check]
    exact (test.check_number _).bind fun _ => .ite (.failAt _ _) <|
      (thenPart.check_number _).bind fun _ => elsePart.check_number _
  | .loop mark test body =>
    rw [Stmt.number, Stmt.check, Stmt.check]
    exact (test.check_number _).bind fun _ => .ite (.failAt _ _) (body.check_number _)
  | .call mark callee arguments =>
    rw [Stmt.number, Stmt.check, Stmt.check, checkCall, checkCall]
    split
    · exact .failAt _ _
    · rw [(forall₂_numberList arguments).length_eq]
      exact .ite (.failAt _ _) (checkArguments_number _ arguments 1 _)
    · exact .failAt _ _

/-- The numbers of statements do not matter for their check. -/
lemma checkStmts_number (body : List Stmt) (n : Nat) :
    Check.Alike (checkStmts tables scope (numberStmts n body)) (checkStmts tables scope body) := by
  match body with
  | [] => exact .pure _
  | s :: rest =>
    rw [numberStmts, checkStmts, checkStmts]
    exact (s.check_number _).bind fun _ => checkStmts_number rest _

end

/-- How the check of a statement ends does not depend on what has been noted before. -/
lemma Stmt.check_alike (s : Stmt) : Check.Alike (s.check tables scope) (s.check tables scope) :=
  (s.check_number 0).symm.left

/-- Statements are checked one after the other. -/
lemma checkStmts_eq_forM (body : List Stmt) :
    checkStmts tables scope body = body.forM (Stmt.check tables scope) := by
  induction body with
  | nil => rfl
  | cons s rest ih => rw [checkStmts, ih, forM_cons_eq]

/-- The result of statements is put together from those of the statements. -/
lemma result_checkStmts (body : List Stmt) : Check.result (checkStmts tables scope body) =
    body.forM fun s => Check.result (s.check tables scope) := by
  rw [checkStmts_eq_forM]
  exact Check.result_forM fun s _ => s.check_alike

/-- The numbers of a procedure do not matter for its check. -/
lemma Procedure.check_number (q : Procedure) (n : Nat) :
    Check.Alike ((q.number n).check tables) (q.check tables) := by
  unfold Procedure.check
  have hname : (q.number n).name = q.name := rfl
  rw [hname]
  split
  · exact .failAt _ _
  · exact checkStmts_number q.body _

end

/-! ### What a program declares -/

/-- A written type is resolved alike whatever its numbers are. -/
@[simp] lemma TypeExpr.resolve_number (e : TypeExpr) {n : Nat} {scope : ScopeId} :
    (e.number n).resolve scope = e.resolve scope := by
  induction e generalizing n with
  | named => rfl
  | array mark length base ih =>
    rw [number, resolve, resolve, ih]
    rfl

/-- A procedure with another body and other numbers: its name and its line are the same, and so is
what it declares. -/
structure Procedure.SameHead (q q' : Procedure) : Prop where
  name : q'.name = q.name
  line : q'.mark.line = q.mark.line
  declare : q'.declare = q.declare

/-- The numbers of a procedure do not belong to its head. -/
lemma Procedure.sameHead_number (q : Procedure) (n : Nat) : q.SameHead (q.number n) := by
  have hparameters (scope : ScopeId) : (q.number n).parameters.mapM (Parameter.declare scope) =
      q.parameters.mapM (Parameter.declare scope) := by
    refine mapM_eq_of_forall₂ ((forall₂_numberList q.parameters).imp ?_)
    rintro x _ ⟨k, rfl⟩
    rw [Parameter.declare, Parameter.declare, Parameter.number, TypeExpr.resolve_number]
    rfl
  have hlocals (scope : ScopeId) : (q.number n).locals.forM (LocalVar.declare scope) =
      q.locals.forM (LocalVar.declare scope) := by
    refine forM_eq_of_forall₂ ((forall₂_numberList q.locals).imp ?_)
    rintro x _ ⟨k, rfl⟩
    rw [LocalVar.declare, LocalVar.declare, LocalVar.number, TypeExpr.resolve_number]
    rfl
  refine ⟨rfl, rfl, ?_⟩
  unfold declare
  simp only [hparameters, hlocals]
  rfl

/-- Procedures with the bodies that are given for them, and empty ones if no more are given. -/
def giveBodies : List Procedure → List (List Stmt) → List Procedure
  | [], _ => []
  | q :: rest, bodies => { q with body := bodies.headD [] } :: giveBodies rest bodies.tail

/-- Definitions with other bodies for the procedures. -/
def withBodies : List Definition → List (List Stmt) → List Definition
  | [], _ => []
  | .type d :: rest, bodies => .type d :: withBodies rest bodies
  | .procedure q :: rest, bodies =>
    .procedure { q with body := bodies.headD [] } :: withBodies rest bodies.tail

section
variable {definitions : List Definition} {bodies : List (List Stmt)}

/-- Bodies that stay as they are, for the first procedures. -/
lemma giveBodies_append {before rest : List Procedure} :
    giveBodies (before ++ rest) (before.map Procedure.body ++ bodies) =
      before ++ giveBodies rest bodies := by
  induction before with
  | nil => rfl
  | cons q before ih =>
    rw [List.cons_append, List.map_cons, List.cons_append, giveBodies, List.tail_cons, ih]
    rfl

/-- Procedures have the same heads whatever bodies they are given. -/
lemma forall₂_giveBodies (procedures : List Procedure) (bodies : List (List Stmt)) :
    List.Forall₂ Procedure.SameHead procedures (giveBodies procedures bodies) := by
  induction procedures generalizing bodies with
  | nil => exact .nil
  | cons q rest ih => exact .cons ⟨rfl, rfl, rfl⟩ (ih _)

namespace Program

/-- The types of a program do not depend on the bodies. -/
lemma typeDefs_withBodies :
    (Program.mk (withBodies definitions bodies)).typeDefs = (Program.mk definitions).typeDefs := by
  unfold typeDefs
  dsimp only
  induction definitions generalizing bodies with
  | nil => rfl
  | cons d rest ih =>
    cases d with
    | type d => exact congrArg (d :: ·) ih
    | procedure q => exact ih

/-- The procedures of a program with other bodies. -/
lemma procedures_withBodies : (Program.mk (withBodies definitions bodies)).procedures =
    giveBodies (Program.mk definitions).procedures bodies := by
  unfold procedures
  dsimp only
  induction definitions generalizing bodies with
  | nil => rfl
  | cons d rest ih =>
    cases d with
    | type d => exact ih
    | procedure q => exact congrArg (_ :: ·) ih

/-- Programs with the same types and the same heads of procedures declare the same. -/
lemma declare_eq {p p' : Program}
    (htypes : List.Forall₂ (fun (d d' : TypeDef) => d'.declare = d.declare) p.typeDefs p'.typeDefs)
    (hprocedures : List.Forall₂ Procedure.SameHead p.procedures p'.procedures) :
    p'.declare = p.declare := by
  unfold declare
  rw [forM_eq_of_forall₂ htypes, forM_eq_of_forall₂ (hprocedures.imp fun _ _ h => h.declare)]

/-- Numbering a program does not change what it declares, and keeps the heads of its procedures. -/
lemma declare_ofDefinitions :
    (ofDefinitions definitions).declare = (Program.mk definitions).declare := by
  refine declare_eq ?_ ((procedures_ofDefinitions definitions).imp ?_)
  · unfold ofDefinitions typeDefs
    dsimp only
    generalize 0 = n
    induction definitions generalizing n with
    | nil => exact .nil
    | cons d rest ih =>
      cases d with
      | type d =>
        refine .cons ?_ (ih _)
        rw [TypeDef.declare, TypeDef.declare, TypeExpr.resolve_number]
        rfl
      | procedure q => exact ih _
  · rintro q _ ⟨n, rfl⟩
    exact q.sameHead_number n

/-- Other bodies do not change what a program declares. -/
lemma declare_withBodies :
    (Program.mk (withBodies definitions bodies)).declare = (Program.mk definitions).declare := by
  refine declare_eq ?_ ?_
  · rw [typeDefs_withBodies]
    exact List.forall₂_same.mpr fun _ _ => rfl
  · rw [procedures_withBodies]
    exact forall₂_giveBodies _ _

/-! ### What a program is told -/

/-- How the check of a program ends, without the types of the nodes. -/
def verdict (tables : Tables) (p : Program) : Except (Located SemanticError) Unit :=
  (p.check tables).map fun _ => ()

variable {tables : Tables} {p p' : Program} {e : Located SemanticError}

/-- The check of a program ends with what the main procedure and the bodies end with. -/
lemma verdict_eq : p.verdict tables = Check.result (p.checkMain tables) >>= fun _ =>
    p.procedures.forM fun q => Check.result (q.check tables) := by
  have halike : ∀ q : Procedure, Check.Alike (q.check tables) (q.check tables) := fun q =>
    (q.check_number 0).symm.left
  rw [← Check.result_forM fun q _ => halike q, ← Check.result_bind fun _ =>
    .forM (List.forall₂_same.mpr fun q _ => halike q)]
  unfold verdict check Check.result
  dsimp only
  generalize StateT.run _ ({} : Annotations) = r
  cases r <;> rfl

/-- A program is refused with what the check ends with. -/
lemma verdict_eq_error : p.verdict tables = .error e ↔ p.check tables = .error e := by
  unfold verdict
  cases p.check tables <;> simp [Except.map]

/-- A program is accepted if the check succeeds. -/
lemma verdict_eq_ok : p.verdict tables = .ok () ↔ ∃ types, p.check tables = .ok types := by
  unfold verdict
  cases p.check tables <;> simp [Except.map]

/-- The check of the main procedure depends on the heads of procedures alone. -/
lemma checkMain_eq (h : List.Forall₂ Procedure.SameHead p.procedures p'.procedures) :
    p'.checkMain tables = p.checkMain tables := by
  have hline : (p'.procedures.find? (·.name == mainName)).map (·.mark.line) =
      (p.procedures.find? (·.name == mainName)).map (·.mark.line) := by
    generalize p.procedures = procedures at h
    generalize p'.procedures = procedures' at h
    induction h with
    | nil => rfl
    | @cons q q' _ _ hq _ ih =>
      rw [List.find?_cons, List.find?_cons, hq.name]
      split
      · exact congrArg some hq.line
      · exact ih
  unfold checkMain
  rw [hline]

/-- A program is told the same whatever the numbers of its nodes are. -/
lemma verdict_ofDefinitions :
    (ofDefinitions definitions).verdict tables = (Program.mk definitions).verdict tables := by
  have h := procedures_ofDefinitions definitions
  have hheads : List.Forall₂ Procedure.SameHead (Program.mk definitions).procedures
      (ofDefinitions definitions).procedures := h.imp fun q _ ⟨n, hn⟩ => hn ▸ q.sameHead_number n
  rw [verdict_eq, verdict_eq, checkMain_eq hheads]
  refine congrArg _ (funext fun _ => forM_eq_of_forall₂ (h.imp ?_))
  rintro q _ ⟨n, rfl⟩
  exact (q.check_number n).result_eq

end Program

/-- A declared procedure is told what its statements are told in its scope. -/
lemma Procedure.result_check {tables : Tables} {q : Procedure} {entry : ProcedureEntry}
    (h : tables.procedure? q.name = some entry) : Check.result (q.check tables) =
      q.body.forM fun s => Check.result (s.check tables entry.scope) := by
  unfold check
  rw [h]
  exact result_checkStmts q.body

/-- What procedures are told that are given no bodies. -/
lemma forM_giveBodies_nil {tables : Tables} {procedures : List Procedure}
    (h : ∀ q ∈ procedures, ∃ entry, tables.procedure? q.name = some entry) :
    (giveBodies procedures []).forM (fun q => Check.result (q.check tables)) = .ok () := by
  induction procedures with
  | nil => rfl
  | cons q rest ih =>
    obtain ⟨⟨entry, hentry⟩, hrest⟩ := List.forall_mem_cons.mp h
    have hq : Check.result (Procedure.check tables { q with body := [] }) = .ok () :=
      Procedure.result_check (q := { q with body := [] }) hentry
    rw [giveBodies, forM_cons_eq]
    exact bind_eq_ok.mpr ⟨(), hq, ih hrest⟩

end

/-! ### The main procedure -/

/-- Whether a fault is that the main procedure is not as it should be. -/
def SemanticError.isMain : SemanticError → Bool
  | .mainMissing | .mainNotAProcedure | .mainMustNotHaveParameters => true
  | _ => false

section
variable {definitions : List Definition} {tables : Tables} {p : Program} {e : Located SemanticError}

/-- The check of the main procedure finds no other faults. -/
lemma Program.isMain_of_checkMain (h : Check.result (p.checkMain tables) = .error e) :
    e.cause.isMain = true := by
  unfold checkMain at h
  split at h
  · cases h
    rfl
  · split at h
    · cases h
    · cases h
      rfl
  · cases h
    rfl

/-- A program without a main procedure is told so. -/
lemma Program.checkMain_missing (hdeclared : p.declare.runOn .predefined = (.ok (), tables))
    (h : ∀ q ∈ p.procedures, q.name ≠ mainName) :
    Check.result (p.checkMain tables) = .error (.nowhere .mainMissing) := by
  obtain ⟨hdeclarable, hlists⟩ := p.declare_ends.of_ok hdeclared
  have hunbound : tables.lookup .global mainName = none := by
    rw [Tables.lookup_global, hlists.binding?_global]
    unfold globalNames
    simp only [List.mem_append, List.mem_map, not_or, not_exists, not_and]
    refine ⟨⟨by decide, fun d hd => ?_⟩, h⟩
    obtain ⟨before, after, hsplit⟩ := List.append_of_mem hd
    exact (hdeclarable.types before d after hsplit).notMain
  unfold checkMain
  rw [hunbound]
  rfl

/-- A program whose main procedure has parameters is told so. -/
lemma Program.checkMain_parameters (hdeclared : p.declare.runOn .predefined = (.ok (), tables))
    {q : Procedure} (hq : q ∈ p.procedures) (hname : q.name = mainName) (h : q.parameters ≠ []) :
    Check.result (p.checkMain tables) =
      .error (.atLine q.mark.line .mainMustNotHaveParameters) := by
  have hbelong := p.declare_belongTo.of_ok hdeclared
  obtain ⟨entry, hdeclares⟩ := hbelong.declared q hq
  have hentry : tables.lookup .global mainName = some (.procedure entry) := by
    rw [Tables.lookup_global, ← hname]
    exact hdeclares.bound
  have hfind : p.procedures.find? (·.name == mainName) = some q := by
    rw [← hname]
    exact hbelong.find?_procedure hq
  have hparameters : ¬entry.parameters.isEmpty = true := by
    rw [List.isEmpty_iff]
    intro hnil
    have hslots := hdeclares.parameters
    rw [hnil, List.forall₂_nil_left_iff, List.map_eq_nil_iff] at hslots
    exact h hslots
  unfold checkMain
  rw [hentry]
  dsimp only
  rw [if_neg hparameters, hfind]
  rfl

end

/-- The check of a program stops at the first fault.  What a program declares does not depend on
its bodies.  If a declared program is refused, and not for its main procedure, there is a first
faulty statement in the bodies: with the bodies cut off before it the program is accepted, and it
is refused for the same fault at the same line whatever follows the statement.  If there is no
main procedure, or the main procedure has parameters, this is the fault whatever they are. -/
theorem Program.check_first_fault (definitions : List Definition) (tables : Tables)
    (hdeclared : (ofDefinitions definitions).declare.runOn .predefined = (.ok (), tables)) :
    (∀ bodies, (ofDefinitions (withBodies definitions bodies)).declare.runOn .predefined =
      (.ok (), tables)) ∧
    (∀ e, (ofDefinitions definitions).check tables = .error e → e.cause.isMain = false →
      ∃ before q after first s rest, (Program.mk definitions).procedures = before ++ q :: after ∧
        q.body = first ++ s :: rest ∧
        (∃ types, (ofDefinitions (withBodies definitions
          (before.map Procedure.body ++ [first]))).check tables = .ok types) ∧
        ∀ rest' bodies, (ofDefinitions (withBodies definitions (before.map Procedure.body ++
          (first ++ s :: rest') :: bodies))).check tables = .error e) ∧
    ((∀ q ∈ (Program.mk definitions).procedures, q.name ≠ mainName) → ∀ bodies,
      (ofDefinitions (withBodies definitions bodies)).check tables =
        .error (.nowhere .mainMissing)) ∧
    ∀ q ∈ (Program.mk definitions).procedures, q.name = mainName → q.parameters ≠ [] → ∀ bodies,
      (ofDefinitions (withBodies definitions bodies)).check tables =
        .error (.atLine q.mark.line .mainMustNotHaveParameters) := by
  have hraw : (Program.mk definitions).declare.runOn .predefined = (.ok (), tables) := by
    rwa [declare_ofDefinitions] at hdeclared
  have hverdict (bodies : List (List Stmt)) :
      (ofDefinitions (withBodies definitions bodies)).verdict tables =
        Check.result ((Program.mk definitions).checkMain tables) >>= fun _ =>
          (giveBodies (Program.mk definitions).procedures bodies).forM fun q =>
            Check.result (q.check tables) := by
    have hheads := forall₂_giveBodies (Program.mk definitions).procedures bodies
    rw [← procedures_withBodies] at hheads
    rw [verdict_ofDefinitions, verdict_eq, checkMain_eq hheads, procedures_withBodies]
  have hmain {e : Located SemanticError}
      (h : Check.result ((Program.mk definitions).checkMain tables) = .error e)
      (bodies : List (List Stmt)) :
      (ofDefinitions (withBodies definitions bodies)).check tables = .error e := by
    rw [← verdict_eq_error, hverdict, h]
    rfl
  refine ⟨fun bodies => ?declare, fun e he hother => ?first,
    fun hmissing => hmain (checkMain_missing hraw hmissing),
    fun q hq hname hparameters => hmain (checkMain_parameters hraw hq hname hparameters)⟩
  case declare => rwa [declare_ofDefinitions, declare_withBodies]
  case first =>
    have hdeclares : ∀ q ∈ (Program.mk definitions).procedures,
        ∃ entry, tables.procedure? q.name = some entry := by
      intro q hq
      obtain ⟨entry, hentry⟩ := ((Program.mk definitions).declare_belongTo.of_ok hraw).declared q hq
      exact ⟨entry, Tables.procedure?_eq_some.mpr hentry.bound⟩
    rw [← verdict_eq_error, verdict_ofDefinitions, verdict_eq] at he
    cases hstart : Check.result ((Program.mk definitions).checkMain tables) with
    | error e' =>
      rw [hstart] at he
      cases he
      rw [isMain_of_checkMain hstart] at hother
      cases hother
    | ok u =>
      rw [hstart] at he
      obtain ⟨before, q, after, hsplit, hbefore, hq⟩ := exists_of_forM_eq_error he
      have hmem : ∀ {r}, r ∈ q :: after → r ∈ (Program.mk definitions).procedures := by
        intro r hr
        rw [hsplit]
        exact List.mem_append_right _ hr
      obtain ⟨entry, hentry⟩ := hdeclares q (hmem List.mem_cons_self)
      rw [Procedure.result_check hentry] at hq
      obtain ⟨first, s, rest, hbody, hfirst, hs⟩ := exists_of_forM_eq_error hq
      refine ⟨before, q, after, first, s, rest, hsplit, hbody, ?_, fun rest' bodies => ?_⟩
      · have hcut : Check.result (Procedure.check tables { q with body := first }) = .ok () := by
          rw [Procedure.result_check (q := { q with body := first }) hentry]
          exact forM_eq_ok.mpr hfirst
        rw [← verdict_eq_ok, hverdict, hstart, hsplit, giveBodies_append, giveBodies]
        refine forM_eq_ok.mpr (List.forall_mem_append.mpr ⟨hbefore, List.forall_mem_cons.mpr ⟨hcut,
          forM_eq_ok.mp (forM_giveBodies_nil fun r hr => ?_)⟩⟩)
        exact hdeclares r (hmem (List.mem_cons_of_mem _ hr))
      · have hfault : Check.result (Procedure.check tables { q with body := first ++ s :: rest' }) =
            .error e := by
          rw [Procedure.result_check (q := { q with body := first ++ s :: rest' }) hentry]
          exact forM_append_cons_eq_error hfirst hs
        rw [← verdict_eq_error, hverdict, hstart, hsplit, giveBodies_append, giveBodies]
        exact forM_append_cons_eq_error hbefore hfault

/-- A main procedure with two faults: an integer where an `if` takes a condition, and then another
one where a loop does. -/
def twoFaults : List Definition :=
  [.procedure
    { mark := .atLine 1
      name := "main"
      parameters := []
      locals := [⟨.atLine 2, "i", .named (.atLine 2) "int"⟩]
      body := [
        .assign (.atLine 3) (.named (.atLine 3) "i") (.int (.atLine 3) 1),
        .ifThen (.atLine 4) (.int (.atLine 4) 1) (.empty (.atLine 4)),
        .loop (.atLine 5) (.int (.atLine 5) 1) (.empty (.atLine 5))] }]

/-- The tables in which the program with two faults is declared. -/
def twoFaultsTables : Tables := ((Program.ofDefinitions twoFaults).declare.runOn .predefined).2

/-- The first fault is the one that the program is refused for, whatever stands behind it. -/
theorem Program.check_first_fault_twoFaults :
    (ofDefinitions twoFaults).declare.runOn .predefined = (.ok (), twoFaultsTables) ∧
    ∃ (before : List Procedure) (first : List Stmt) (s : Stmt),
      (∃ types, (ofDefinitions (withBodies twoFaults
        (before.map Procedure.body ++ [first]))).check twoFaultsTables = .ok types) ∧
      ∀ rest bodies, (ofDefinitions (withBodies twoFaults (before.map Procedure.body ++
        (first ++ s :: rest) :: bodies))).check twoFaultsTables =
          .error (.atLine 4 (.ifConditionMustBeBoolean .int)) := by
  have hdeclared : (ofDefinitions twoFaults).declare.runOn .predefined =
      (.ok (), twoFaultsTables) := by
    decide +kernel
  have hchecked : (ofDefinitions twoFaults).check twoFaultsTables =
      .error (.atLine 4 (.ifConditionMustBeBoolean .int)) := by
    decide +kernel
  obtain ⟨-, hfirst, -⟩ := check_first_fault twoFaults twoFaultsTables hdeclared
  obtain ⟨before, q, after, first, s, rest, -, -, hcut, hfault⟩ := hfirst _ hchecked rfl
  exact ⟨hdeclared, before, first, s, hcut, hfault⟩

end TreeCompiler
