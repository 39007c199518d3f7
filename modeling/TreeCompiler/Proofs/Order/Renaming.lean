import TreeCompiler.Proofs.Frame.Allocation
import TreeCompiler.Proofs.Order.Numbered
import TreeCompiler.Proofs.Order.Origin

/-!
# Typing under a renaming of types

The typing rules compare handles of types and look up names; that a handle is a certain number does
not matter to them.  Where the names of two scopes mean the same up to a renaming of handles
(`Tables.Renames`), the same statements obey the rules (`Stmt.WellTyped.rename`).  The tables in which
two programs with the same types and procedures are declared rename each other: handles correspond if
they come from the same place (`Program.Resembles.renames`).
-/

namespace TreeCompiler

/-! ### Renamings -/

/-- The names of a scope mean what they do in a scope of other tables, where types have other
handles. -/
structure Tables.Renames (ρ : TypeId → TypeId → Prop) (t : Tables) (scope : ScopeId) (t' : Tables)
    (scope' : ScopeId) : Prop where
  int : ρ .int .int
  bool : ρ .bool .bool
  unique : ∀ id id₁ id₂, ρ id id₁ → ρ id id₂ → id₁ = id₂
  base : ∀ id id' a, ρ id id' → t.types.array? id = some a →
    ∃ a', t'.types.array? id' = some a' ∧ ρ a.base a'.base
  var : ∀ n slot, t.lookup scope n = some (.var slot) →
    ∃ slot', t'.lookup scope' n = some (.var slot') ∧ ρ slot.type slot'.type
  procedure : ∀ n e, t.lookup scope n = some (.procedure e) →
    ∃ e', t'.lookup scope' n = some (.procedure e') ∧
      List.Forall₂ (fun s s' => ρ s.type s'.type ∧ s'.isReference = s.isReference)
        e.parameters e'.parameters

section
variable {ρ : TypeId → TypeId → Prop} {t t' : Tables} {scope scope' : ScopeId} {n n' : Nat}
  {id : TypeId} (h : t.Renames ρ scope t' scope')
include h

mutual

/-- A variable has a corresponding type, whatever its numbers are. -/
lemma Variable.HasType.rename (v : Variable) {n n' : Nat} {id : TypeId}
    (hv : (v.number n).HasType t scope id) :
    ∃ id', ρ id id' ∧ (v.number n').HasType t' scope' id' := by
  match v with
  | .named mark name =>
    cases hv with
    | named hlookup =>
      obtain ⟨slot', hlookup', htype⟩ := h.var _ _ hlookup
      exact ⟨_, htype, .named hlookup'⟩
  | .element mark array index =>
    rw [Variable.number] at hv ⊢
    cases hv with
    | element harray hinfo hindex =>
      obtain ⟨id', hid, harray'⟩ := Variable.HasType.rename array harray
      obtain ⟨a', ha', hbase⟩ := h.base _ _ _ hid hinfo
      obtain ⟨i, hi, hindex'⟩ := Expr.HasType.rename index hindex
      obtain rfl := h.unique _ _ _ hi h.int
      exact ⟨_, hbase, .element harray' ha' hindex'⟩

/-- An expression has a corresponding type, whatever its numbers are. -/
lemma Expr.HasType.rename (e : Expr) {n n' : Nat} {id : TypeId}
    (he : (e.number n).HasType t scope id) :
    ∃ id', ρ id id' ∧ (e.number n').HasType t' scope' id' := by
  match e with
  | .int mark value =>
    cases he with
    | int => exact ⟨_, h.int, .int⟩
  | .bool mark value =>
    cases he with
    | bool => exact ⟨_, h.bool, .bool⟩
  | .read mark source =>
    rw [Expr.number] at he ⊢
    cases he with
    | read hsource =>
      obtain ⟨id', hid, hsource'⟩ := Variable.HasType.rename source hsource
      exact ⟨id', hid, .read hsource'⟩
  | .negate mark operand =>
    rw [Expr.number] at he ⊢
    cases he with
    | negate hoperand =>
      obtain ⟨i, hi, hoperand'⟩ := Expr.HasType.rename operand hoperand
      obtain rfl := h.unique _ _ _ hi h.int
      exact ⟨_, h.int, .negate hoperand'⟩
  | .binary mark op left right =>
    rw [Expr.number] at he ⊢
    cases he with
    | arithmetic hop hleft hright =>
      obtain ⟨i, hi, hleft'⟩ := Expr.HasType.rename left hleft
      obtain ⟨j, hj, hright'⟩ := Expr.HasType.rename right hright
      obtain rfl := h.unique _ _ _ hi h.int
      obtain rfl := h.unique _ _ _ hj h.int
      exact ⟨_, h.int, .arithmetic hop hleft' hright'⟩
    | comparison hop hleft hright =>
      obtain ⟨i, hi, hleft'⟩ := Expr.HasType.rename left hleft
      obtain ⟨j, hj, hright'⟩ := Expr.HasType.rename right hright
      obtain rfl := h.unique _ _ _ hi h.int
      obtain rfl := h.unique _ _ _ hj h.int
      exact ⟨_, h.bool, .comparison hop hleft' hright'⟩

end

/-- A value of a primitive type has that type, whatever its numbers are. -/
lemma Expr.HasType.rename_of_eq {id' : TypeId} (hid : ρ id id') {e : Expr}
    (he : (e.number n).HasType t scope id) : (e.number n').HasType t' scope' id' := by
  have hrenamed : ∃ i, ρ _ i ∧ (e.number n').HasType t' scope' i := Expr.HasType.rename h e he
  obtain ⟨i, hi, he'⟩ := hrenamed
  exact h.unique _ _ _ hi hid ▸ he'

/-- An integer variable is one, whatever its numbers are. -/
lemma Variable.HasType.rename_int {v : Variable} (hv : (v.number n).HasType t scope .int) :
    (v.number n').HasType t' scope' .int := by
  have hrenamed : ∃ i, ρ _ i ∧ (v.number n').HasType t' scope' i := Variable.HasType.rename h v hv
  obtain ⟨i, hi, hv'⟩ := hrenamed
  exact h.unique _ _ _ hi h.int ▸ hv'

/-- Arguments fit corresponding parameters, whatever their numbers are. -/
lemma Slot.Accepts.rename {slots slots' : List Slot}
    (hslots : List.Forall₂ (fun s s' => ρ s.type s'.type ∧ s'.isReference = s.isReference)
      slots slots') (arguments : List Expr) {n n' : Nat}
    (hargs : List.Forall₂ (Slot.Accepts t scope) slots (numberExprs n arguments)) :
    List.Forall₂ (Slot.Accepts t' scope') slots' (numberExprs n' arguments) := by
  induction hslots generalizing arguments n n' with
  | nil =>
    cases arguments with
    | nil => exact .nil
    | cons e rest => cases hargs
  | cons hslot _ ih =>
    cases arguments with
    | nil => cases hargs
    | cons e rest =>
      rw [numberExprs, numberList] at hargs ⊢
      cases hargs with
      | cons hfirst hrest =>
        refine .cons ⟨Expr.HasType.rename_of_eq h hslot.1 hfirst.1, fun href => ?_⟩ (ih rest hrest)
        have hvariable := hfirst.2 (hslot.2 ▸ href)
        rw [Expr.variable?_number, Option.isSome_map] at hvariable ⊢
        exact hvariable

end

section
variable {ρ : TypeId → TypeId → Prop} {t t' : Tables} {scope scope' : ScopeId}

mutual

/-- A statement that obeys the rules does so whatever its numbers are. -/
lemma Stmt.WellTyped.rename (h : t.Renames ρ scope t' scope') (s : Stmt) {n n' : Nat}
    (hs : (s.number n).WellTyped t scope) : (s.number n').WellTyped t' scope' := by
  match s with
  | .empty mark => exact .empty
  | .block mark body =>
    rw [Stmt.number] at hs ⊢
    cases hs with
    | block hbody => exact .block (wellTyped_numberStmts h body hbody)
  | .assign mark target value =>
    rw [Stmt.number] at hs ⊢
    cases hs with
    | assign htarget hvalue =>
      exact .assign (Variable.HasType.rename_int h htarget) (Expr.HasType.rename_of_eq h h.int hvalue)
  | .ifThen mark test thenPart =>
    rw [Stmt.number] at hs ⊢
    cases hs with
    | ifThen htest hthen =>
      exact .ifThen (Expr.HasType.rename_of_eq h h.bool htest) (Stmt.WellTyped.rename h thenPart hthen)
  | .ifThenElse mark test thenPart elsePart =>
    rw [Stmt.number] at hs ⊢
    cases hs with
    | ifThenElse htest hthen helse =>
      exact .ifThenElse (Expr.HasType.rename_of_eq h h.bool htest)
        (Stmt.WellTyped.rename h thenPart hthen) (Stmt.WellTyped.rename h elsePart helse)
  | .loop mark test body =>
    rw [Stmt.number] at hs ⊢
    cases hs with
    | loop htest hbody =>
      exact .loop (Expr.HasType.rename_of_eq h h.bool htest) (Stmt.WellTyped.rename h body hbody)
  | .call mark callee arguments =>
    rw [Stmt.number] at hs ⊢
    cases hs with
    | call hcallee hargs =>
      obtain ⟨e', hcallee', hslots⟩ := h.procedure _ _ hcallee
      exact .call hcallee' (Slot.Accepts.rename h hslots arguments hargs)

/-- Statements that obey the rules do so whatever their numbers are. -/
lemma wellTyped_numberStmts (h : t.Renames ρ scope t' scope') (body : List Stmt) {n n' : Nat}
    (hbody : ∀ s ∈ numberStmts n body, s.WellTyped t scope) :
    ∀ s ∈ numberStmts n' body, s.WellTyped t' scope' := by
  match body with
  | [] => exact nofun
  | s :: rest =>
    rw [numberStmts] at hbody ⊢
    obtain ⟨hfirst, hrest⟩ := List.forall_mem_cons.mp hbody
    exact List.forall_mem_cons.mpr
      ⟨Stmt.WellTyped.rename h s hfirst, wellTyped_numberStmts h rest hrest⟩

end

end

/-! ### Programs that resemble each other -/

/-- A type comes from the same place whatever its numbers are. -/
@[simp] lemma TypeExpr.origin?_number {origins : List (String × Origin)} {site : Site} {n : Nat}
    (e : TypeExpr) : (e.number n).origin? origins site = e.origin? origins site := by
  have hdepth : ∀ (e : TypeExpr) n, (e.number n).depth = e.depth := by
    intro e
    induction e with
    | named => exact fun _ => rfl
    | array mark length base ih => exact fun n => congrArg (· + 1) (ih (n + 1))
  induction e generalizing n with
  | named => rfl
  | array mark length base ih => rw [number, origin?, origin?, ih, hdepth]

/-- Two declarations of variables have the same name, the same way of being passed, and types from the
same place. -/
structure VariableDecl.Matches (d d' : VariableDecl) : Prop where
  name : d'.name = d.name
  isReference : d'.isReference = d.isReference
  origin : ∀ origins procedure, d'.origin? origins procedure = d.origin? origins procedure

/-- Two declarations that are alike to a third one match. -/
lemma VariableDecl.Alike.matches {d d₁ d₂ : VariableDecl} (h₁ : d.Alike d₁) (h₂ : d.Alike d₂) :
    d₁.Matches d₂ := by
  obtain ⟨n₁, htype₁⟩ := h₁.type
  obtain ⟨n₂, htype₂⟩ := h₂.type
  refine ⟨h₂.name.trans h₁.name.symm, h₂.isReference.trans h₁.isReference.symm, fun _ _ => ?_⟩
  unfold VariableDecl.origin?
  rw [htype₁, htype₂, TypeExpr.origin?_number, TypeExpr.origin?_number, h₁.name, h₂.name]

/-- Two procedures are the same up to the numbers of their nodes. -/
def Procedure.Alike (q q' : Procedure) : Prop :=
  ∃ (text : Procedure) (n n' : Nat), q = text.number n ∧ q' = text.number n'

namespace Procedure.Alike

variable {q q' : Procedure} (h : q.Alike q')
include h

/-- Being alike does not depend on the order. -/
lemma symm : q'.Alike q := by
  obtain ⟨text, n, n', hq, hq'⟩ := h
  exact ⟨text, n', n, hq', hq⟩

/-- Procedures that are alike have the same name. -/
lemma name : q'.name = q.name := by
  obtain ⟨text, n, n', rfl, rfl⟩ := h
  rfl

/-- Procedures that are alike have matching parameters. -/
lemma parameters : List.Forall₂ VariableDecl.Matches (q.parameters.map Parameter.decl)
    (q'.parameters.map Parameter.decl) := by
  obtain ⟨text, n, n', rfl, rfl⟩ := h
  exact forall₂_comp text.parameters_number.flip text.parameters_number
    fun _ _ _ h₁ h₂ => VariableDecl.Alike.matches h₁ h₂

/-- Procedures that are alike have matching variables. -/
lemma decls : List.Forall₂ VariableDecl.Matches q.decls q'.decls := by
  obtain ⟨text, n, n', rfl, rfl⟩ := h
  exact forall₂_comp text.decls_number.flip text.decls_number
    fun _ _ _ h₁ h₂ => VariableDecl.Alike.matches h₁ h₂

end Procedure.Alike

/-- The types of one program come from the same places as those of another, which has a procedure that
is alike for each of its procedures. -/
structure Program.Resembles (p p' : Program) : Prop where
  typeOrigins : p'.typeOrigins = p.typeOrigins
  procedures : ∀ q ∈ p.procedures, ∃ q' ∈ p'.procedures, q.Alike q'

/-- Two handles come from the same place. -/
def SameOrigin (g g' : List (ArrayType × Tag)) (id id' : TypeId) : Prop :=
  ∃ o, originIn g id = some o ∧ originIn g' id' = some o

section
variable {p p' : Program} {t t' : Tables} {g g' : List (ArrayType × Tag)} {q q' : Procedure}
  {e e' : ProcedureEntry}

/-- Slots for matching variables have types from the same place. -/
lemma Slot.Traces.sameOrigin {origins : List (String × Origin)} {procedure : String}
    {slot slot' : Slot} {d d' : VariableDecl} (h : slot.Traces origins procedure g d)
    (h' : slot'.Traces origins procedure g' d') (hd : d.Matches d') :
    SameOrigin g g' slot.type slot'.type := by
  obtain ⟨o, ho, horigin⟩ := h
  obtain ⟨o', ho', horigin'⟩ := h'
  rw [hd.origin, ho] at ho'
  cases ho'
  exact ⟨o, horigin, horigin'⟩

variable (hresembles : p.Resembles p') (htraced : t.Traced p.typeDefs p.procedures g)
  (htraced' : t'.Traced p'.typeDefs p'.procedures g')
include hresembles htraced htraced'

/-- Procedures that are alike have parameters of types from the same place. -/
lemma Program.Resembles.parameters (hq : q ∈ p.procedures) (hq' : q' ∈ p'.procedures)
    (halike : q.Alike q') (he : t.Declares p.typeNames q e) (he' : t'.Declares p'.typeNames q' e') :
    List.Forall₂ (fun s s' => SameOrigin g g' s.type s'.type ∧ s'.isReference = s.isReference)
      e.parameters e'.parameters := by
  have hslots := forall₂_and (htraced.slots q hq e he.bound).1 he.parameters
  have hslots' := forall₂_and (htraced'.slots q' hq' e' he'.bound).1 he'.parameters
  refine forall₂_comp (forall₂_comp hslots halike.parameters
    (T := fun s d' => ∃ d, (s.Traces p.typeOrigins q.name g d ∧ s.isReference = d.isReference) ∧
      d.Matches d') fun s d d' hs hd => ⟨d, ⟨hs.1, hs.2.1⟩, hd⟩) hslots'.flip ?_
  rintro s d' s' ⟨d, ⟨htraces, href⟩, hd⟩ ⟨htraces', hholds'⟩
  have horigins : s'.Traces p.typeOrigins q.name g' d' := by
    rw [← hresembles.typeOrigins, ← halike.name]
    exact htraces'
  exact ⟨htraces.sameOrigin horigins hd, by rw [hholds'.1, hd.isReference, href]⟩

/-- The scopes of procedures that are alike rename each other. -/
lemma Program.Resembles.renames (hlists : t.Lists p.typeDefs p.procedures)
    (hlists' : t'.Lists p'.typeDefs p'.procedures) (hq : q ∈ p.procedures) (hq' : q' ∈ p'.procedures)
    (halike : q.Alike q') (he : t.Declares p.typeNames q e) (he' : t'.Declares p'.typeNames q' e') :
    t.Renames (SameOrigin g g') e.scope t' e'.scope := by
  refine ⟨⟨.int, originIn_int, originIn_int⟩, ⟨.bool, originIn_bool, originIn_bool⟩, ?unique, ?base,
    ?var, ?procedure⟩
  case unique =>
    rintro id id₁ id₂ ⟨o, ho, ho₁⟩ ⟨o', ho', ho₂⟩
    rw [ho] at ho'
    cases ho'
    exact htraced'.injective hlists' ho₁ ho₂
  case base =>
    rintro id id' a ⟨o, ho, ho'⟩ ha
    unfold TypeTable.array? at ha ⊢
    rw [htraced.arrays] at ha
    obtain ⟨tag, element, rfl, hbase⟩ := exists_originIn_base ho ha
    obtain ⟨a', ha'⟩ := exists_findArray_of_originIn ho'
    obtain ⟨_, _, heq, hbase'⟩ := exists_originIn_base ho' ha'
    cases heq
    rw [htraced'.arrays]
    exact ⟨a', ha', _, hbase, hbase'⟩
  case var =>
    intro n slot hslot
    obtain ⟨hbinding, d, hd, hname, -⟩ := he.lookup_var hlists.holds hslot
    obtain ⟨d', hd', hmatches⟩ := exists_of_forall₂ halike.decls hd
    obtain ⟨slot', hslot', -⟩ := he'.knows d' hd'
    refine ⟨slot', ?_, ?_⟩
    · rw [he'.lookup_eq hlists'.holds, ← hname, ← hmatches.name, hslot']
      rfl
    · rw [← hname] at hbinding
      have htraces := (htraced.slots q hq e he.bound).2 d hd slot hbinding
      have htraces' : slot'.Traces p.typeOrigins q.name g' d' := by
        rw [← hresembles.typeOrigins, ← halike.name]
        exact (htraced'.slots q' hq' e' he'.bound).2 d' hd' slot' hslot'
      exact htraces.sameOrigin htraces' hmatches
  case procedure =>
    intro n callee hcallee
    have hglobal := he.lookup_procedure hlists.holds hcallee
    -- A variable that hides the procedure in one program would hide it in the other.
    have hnone : t'.binding? e'.scope n = none := by
      cases hbound : t'.binding? e'.scope n with
      | none => rfl
      | some x =>
        obtain ⟨d', hd', hname, -⟩ := he'.binding?_eq_some hbound
        obtain ⟨d, hd, hmatches⟩ := exists_of_forall₂ halike.symm.decls hd'
        obtain ⟨slot, hslot, -⟩ := he.knows d hd
        rw [he.lookup_eq hlists.holds, ← hname, ← hmatches.name, hslot] at hcallee
        cases hcallee
    have hlookup : t'.lookup e'.scope n = t'.binding? .global n := by
      rw [he'.lookup_eq hlists'.holds, hnone]
      rfl
    rw [hlookup]
    rcases hlists.holds.origin n callee hglobal with ⟨r, hr, rfl⟩ | ⟨q₂, hq₂, rfl⟩
    · obtain ⟨er, hbound, -, hslots⟩ := hlists.holds.runtime r hr
      obtain ⟨er', hbound', -, hslots'⟩ := hlists'.holds.runtime r hr
      rw [hglobal] at hbound
      cases hbound
      refine ⟨er', hbound', forall₂_comp hslots hslots'.flip ?_⟩
      rintro s b s' ⟨htype, href⟩ ⟨htype', href'⟩
      rw [htype, htype', href, href']
      exact ⟨⟨.int, originIn_int, originIn_int⟩, rfl⟩
    · obtain ⟨q₂', hq₂', halike₂⟩ := hresembles.procedures q₂ hq₂
      obtain ⟨e₂, he₂⟩ := hlists.holds.declared q₂ hq₂
      obtain ⟨e₂', he₂'⟩ := hlists'.holds.declared q₂' hq₂'
      have hbound := he₂.bound
      rw [hglobal] at hbound
      cases hbound
      refine ⟨e₂', halike₂.name ▸ he₂'.bound, ?_⟩
      exact hresembles.parameters htraced htraced' hq₂ hq₂' halike₂ he₂ he₂'

end

end TreeCompiler
