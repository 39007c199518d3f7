import TreeCompiler.Proofs.Locals.Mirror
import TreeCompiler.Proofs.Locals.Renamed
import TreeCompiler.Proofs.Locals.Scope
import TreeCompiler.Proofs.Order.Replaced

/-!
# Declaring variables under other names

While a program is declared in which the variables of one procedure have other names, the tables
are those of the program itself, up to the names in the scope of the procedure
(`Tables.Mirrored`).  Types are resolved alike, because no variable takes a name that is looked
up.  So the program is declared whenever the other one is, and the tables are the same but for
these names (`Program.declare_rename`).
-/

namespace TreeCompiler

variable {own scope j : ScopeId} {ρ : String → String} {locals : List String}
  {kept : List (String × Entry)} {t t' : Tables} {n : String} {x : Entry}

/-- The tables of two runs, of which the second writes other names in one scope.  This scope binds
variables only, whose names are known.  Names are declared in a scope inside the global one, and
some bindings of the global scope are kept. -/
structure Tables.Mirrored (own : ScopeId) (ρ : String → String) (locals : List String)
    (kept : List (String × Entry)) (scope : ScopeId) (t t' : Tables) : Prop where
  renamed : t' = t.renameIn own ρ
  inside : own ≠ .global
  outermost : (t.scope .global).parent = none
  symbols : ∃ symbols, t.scope? own = some ⟨some .global, symbols⟩ ∧
    ∀ y ∈ symbols, y.name ∈ locals ∧ ∃ slot, y.entry = .var slot
  current : scope ≠ .global ∧ ∃ symbols, t.scope? scope = some ⟨some .global, symbols⟩
  kept : ∀ y ∈ kept, t.binding? .global y.1 = some y.2

namespace Tables

/-- A scope can be added before another one is given other names or afterwards. -/
lemma renameIn_newScope {parent : ScopeId} (h : t.HasScope own) :
    (t.newScope parent).2.renameIn own ρ = ((t.renameIn own ρ).newScope parent).2 := by
  refine eq_of_scope? rfl fun k => ?_
  rw [scope?_newScope, length_scopes_renameIn]
  by_cases hk : k = own
  · subst hk
    have hne : k ≠ ⟨t.scopes.length⟩ := by
      rintro rfl
      exact Nat.lt_irrefl _ h
    rw [scope?_renameIn_self, scope?_newScope, if_neg hne, if_neg hne, scope?_renameIn_self]
  · rw [scope?_renameIn_of_ne hk, scope?_newScope, scope?_renameIn_of_ne hk]

/-- The two runs start alike, with a scope of their own for the variables that get other names. -/
lemma mirrored_newScope (houtermost : ∃ symbols, t.scope? .global = some ⟨none, symbols⟩) :
    (t.newScope .global).2.Mirrored ⟨t.scopes.length⟩ ρ locals [] ⟨t.scopes.length⟩
      (t.newScope .global).2 := by
  obtain ⟨symbols, hglobal⟩ := houtermost
  have hnew : (t.newScope .global).2.scope? ⟨t.scopes.length⟩ = some ⟨some .global, []⟩ := by
    rw [scope?_newScope, if_pos rfl]
  have hinside : (⟨t.scopes.length⟩ : ScopeId) ≠ .global := by
    intro heq
    rw [← heq] at hglobal
    exact Nat.lt_irrefl _ (hasScope_of_scope? hglobal)
  refine ⟨(renameIn_eq_self ?_).symm, hinside, ?_, ⟨[], hnew, nofun⟩, ⟨hinside, [], hnew⟩, nofun⟩
  · rw [scope_of_scope? hnew]
    rfl
  · rw [scope_of_scope? (scope?_newScope_of_some hglobal)]

namespace Mirrored

section
variable (h : t.Mirrored own ρ locals kept scope t')
include h

/-- The names that the scope binds are those of the variables. -/
lemma mem_locals : ∀ m ∈ (t.scope own).names, m ∈ locals := by
  obtain ⟨symbols, hscope, hsymbols⟩ := h.symbols
  rw [scope_of_scope? hscope]
  intro m hm
  obtain ⟨y, hy, rfl⟩ := List.mem_map.mp hm
  exact (hsymbols y hy).1

/-- What the scope binds a name to is a variable. -/
lemma exists_var (hx : t.binding? own n = some x) : ∃ slot, x = .var slot := by
  obtain ⟨symbols, hscope, hsymbols⟩ := h.symbols
  unfold binding? at hx
  rw [scope_of_scope? hscope] at hx
  exact (hsymbols _ (Scope.mem_of_find? hx)).2

/-- The scope in which names are declared is enclosed by the global one in both tables. -/
lemma lookup_eq : t.lookup scope n = (t.binding? scope n).or (t.binding? .global n) ∧
    t'.lookup scope n = (t'.binding? scope n).or (t.binding? .global n) := by
  obtain ⟨hne, symbols, hscope⟩ := h.current
  have hglobal : t'.scope? .global = t.scope? .global := by
    rw [h.renamed]
    exact scope?_renameIn_of_ne h.inside.symm
  have houter : t'.scope .global = t.scope .global := by
    unfold Tables.scope
    rw [hglobal]
  have hscope' : ∃ s, t'.scope? scope = some s ∧ s.parent = some .global := by
    rw [h.renamed]
    by_cases hown : scope = own
    · subst hown
      rw [scope?_renameIn_self, hscope]
      exact ⟨_, rfl, rfl⟩
    · rw [scope?_renameIn_of_ne hown, hscope]
      exact ⟨_, rfl, rfl⟩
  obtain ⟨s, hs, hparent⟩ := hscope'
  refine ⟨lookup_local hscope rfl hne h.outermost, ?_⟩
  rw [lookup_local hs hparent hne (houter ▸ h.outermost)]
  unfold binding?
  rw [houter]

/-- A name means the same in both tables unless it means a variable, if no variable has taken it. -/
lemma lookup_of_some (hn : scope = own → ∀ m ∈ locals, ρ m ≠ n) (hx : t.lookup scope n = some x)
    (hvar : ∀ slot, x ≠ .var slot) : t'.lookup scope n = some x := by
  rw [h.lookup_eq.1] at hx
  rw [h.lookup_eq.2, h.renamed]
  by_cases hown : scope = own
  · subst hown
    rw [binding?_renameIn_eq_none fun m hm => hn rfl m (h.mem_locals m hm), Option.none_or]
    rcases Option.or_eq_some_iff.mp hx with hx | ⟨-, hx⟩
    · obtain ⟨slot, rfl⟩ := h.exists_var hx
      exact absurd rfl (hvar slot)
    · exact hx
  · rw [binding?_renameIn_of_ne hown, hx]

/-- Both tables may get the same types. -/
lemma grow (types : TypeTable) :
    Mirrored own ρ locals kept scope { t with types } { t' with types } := by
  obtain ⟨rfl, hinside, houtermost, hsymbols, hcurrent, hkept⟩ := h
  exact ⟨rfl, hinside, houtermost, hsymbols, hcurrent, hkept⟩

/-- A name may be declared in both tables, as it is written there. -/
lemma add (hx : j = own → n ∈ locals ∧ ∃ slot, x = .var slot) :
    Mirrored own ρ locals kept scope (t.modifyScope j (·.add n x))
      (t'.modifyScope j (·.add (writtenIn own ρ j n) x)) := by
  have hadd (k : ScopeId) (symbols : List Symbol) (hk : t.scope? k = some ⟨some .global, symbols⟩) :
      ∃ symbols', (t.modifyScope j (·.add n x)).scope? k = some ⟨some .global, symbols'⟩ ∧
        ∀ y ∈ symbols', y ∈ symbols ∨ k = j ∧ y = ⟨n, x⟩ := by
    rw [scope?_add hk]
    split
    · rename_i hkj
      refine ⟨symbols ++ [⟨n, x⟩], rfl, fun y hy => ?_⟩
      rw [List.mem_append, List.mem_singleton] at hy
      exact hy.imp_right fun hy => ⟨hkj, hy⟩
    · exact ⟨symbols, rfl, fun y hy => .inl hy⟩
  refine ⟨?_, h.inside, parent_add.trans h.outermost, ?_, ⟨h.current.1, ?_⟩,
    fun y hy => binding?_add_of_some (h.kept y hy)⟩
  · rw [h.renamed]
    unfold writtenIn
    split
    · rename_i hown
      subst hown
      exact (renameIn_modifyScope_self Scope.rename_add).symm
    · rename_i hown
      exact (renameIn_modifyScope_of_ne hown).symm
  · obtain ⟨symbols, hscope, hsymbols⟩ := h.symbols
    obtain ⟨symbols', hscope', hmem⟩ := hadd own symbols hscope
    refine ⟨symbols', hscope', fun y hy => ?_⟩
    rcases hmem y hy with hy | ⟨hown, rfl⟩
    · exact hsymbols y hy
    · exact hx hown.symm
  · obtain ⟨-, symbols, hscope⟩ := h.current
    obtain ⟨symbols', hscope', -⟩ := hadd scope symbols hscope
    exact ⟨symbols', hscope'⟩

/-- Both runs may add a scope, and declare names there. -/
lemma newScope : Mirrored own ρ locals kept ⟨t.scopes.length⟩ (t.newScope .global).2
      (t'.newScope .global).2 ∧ (⟨t.scopes.length⟩ : ScopeId) ≠ own ∧
    t'.scopes.length = t.scopes.length := by
  obtain ⟨symbols, hscope, hsymbols⟩ := h.symbols
  have hexists : t.HasScope own := hasScope_of_scope? hscope
  have hlength : t'.scopes.length = t.scopes.length := by
    rw [h.renamed, length_scopes_renameIn]
  have hne : (⟨t.scopes.length⟩ : ScopeId) ≠ own := by
    rintro rfl
    exact Nat.lt_irrefl _ hexists
  have hglobal : (⟨t.scopes.length⟩ : ScopeId) ≠ .global := by
    intro heq
    have hzero : t.scopes.length = 0 := congrArg ScopeId.index heq
    unfold HasScope at hexists
    omega
  have hold : ∀ k, k ≠ ⟨t.scopes.length⟩ → (t.newScope .global).2.scope? k = t.scope? k :=
    fun k hk => by rw [scope?_newScope, if_neg hk]
  have houter : (t.newScope .global).2.scope .global = t.scope .global := by
    unfold Tables.scope
    rw [hold _ hglobal.symm]
  refine ⟨⟨?_, h.inside, houter ▸ h.outermost, ⟨symbols, (hold _ hne.symm).trans hscope, hsymbols⟩,
    ⟨hglobal, [], ?_⟩, fun y hy => ?_⟩, hne, hlength⟩
  · rw [h.renamed]
    exact (renameIn_newScope hexists).symm
  · rw [scope?_newScope, if_pos rfl]
  · unfold binding?
    rw [houter]
    exact h.kept y hy

/-- The global scope exists. -/
lemma hasScope_global : t.HasScope .global := by
  obtain ⟨symbols, hscope, -⟩ := h.symbols
  exact Nat.lt_of_le_of_lt (Nat.zero_le _) (hasScope_of_scope? hscope)

/-- A binding of the global scope may be kept from now on. -/
lemma keep {y : String × Entry} (hy : t.binding? .global y.1 = some y.2) :
    Mirrored own ρ locals (y :: kept) scope t t' :=
  { h with kept := List.forall_mem_cons.mpr ⟨hy, h.kept⟩ }

/-- The scope in which names are declared may be left. -/
lemma leave : Mirrored own ρ locals kept own t t' := by
  obtain ⟨symbols, hscope, -⟩ := h.symbols
  exact ⟨h.renamed, h.inside, h.outermost, h.symbols, ⟨h.inside, symbols, hscope⟩, h.kept⟩

end

end Mirrored

end Tables

/-! ### Steps -/

/-- A variable whose name may be another one, which is not taken. -/
structure VariableDecl.Free (ρ : String → String) (locals : List String) (d : VariableDecl) :
    Prop where
  mem : d.name ∈ locals
  notMain : ρ d.name ≠ mainName
  notType : ∀ m ∈ locals, ρ m ≠ d.type.root

/-- The names of the variables are not taken. -/
lemma Procedure.Renamable.free {q : Procedure} (hq : q.Renamable ρ) {d : VariableDecl}
    (hd : d ∈ q.decls) : d.Free ρ (q.decls.map VariableDecl.name) := by
  refine ⟨List.mem_map_of_mem hd, hq.notMain d hd, fun m hm => ?_⟩
  obtain ⟨d', hd', rfl⟩ := List.mem_map.mp hm
  exact hq.notType d' hd' d hd

/-- Declares what is inside a procedure in its scope, and then the procedure itself. -/
def Procedure.declareInside (p : Procedure) (scope : ScopeId) : Pass SemanticError Unit := do
  let parameters ← p.parameters.mapM (Parameter.declare scope)
  p.locals.forM (LocalVar.declare scope)
  declareName p.mark.line .global p.name (.procedure { scope, parameters })

/-- A procedure is declared inside a new scope. -/
lemma Procedure.declare_outcome (p : Procedure) (t : Tables) : p.declare.outcome t =
    (p.declareInside ⟨t.scopes.length⟩).outcome (t.newScope .global).2 := rfl

section
variable (hinjective : ∀ m ∈ locals, ∀ m' ∈ locals, ρ m = ρ m' → m = m')
  (h : t.Mirrored own ρ locals kept scope t')
include h

/-- A type is resolved alike, if no variable has taken its name. -/
lemma TypeExpr.resolve_mirrors (e : TypeExpr) (he : scope = own → ∀ m ∈ locals, ρ m ≠ e.root) :
    (e.resolve scope).Mirrors (Tables.Mirrored own ρ locals kept scope) t (e.resolve scope) t' := by
  induction e with
  | named mark name =>
    unfold resolve
    refine Step.mirrors_get_bind ?_
    split
    · exact Step.mirrors_failAt
    · rename_i id hid
      have hid' : t'.lookup scope name = some (.type id) :=
        h.lookup_of_some he hid fun _ => Entry.noConfusion
      rw [hid']
      exact Step.mirrors_pure h
    · exact Step.mirrors_failAt
  | array mark length base ih =>
    unfold resolve
    refine (ih he).bind fun base u u' hu => Step.mirrors_get_bind ?_
    have htypes : u'.types = u.types := by
      rw [hu.renamed, Tables.types_renameIn]
    rw [htypes]
    split
    · exact Step.mirrors_set_bind (Step.mirrors_pure (hu.grow _))
    · exact Step.mirrors_failAt

/-- A name is refused alike, if no variable is called like the main procedure. -/
lemma refuseMainName_mirrors {line : UInt32} (hmain : scope = own → ρ n ≠ mainName) :
    (refuseMainName line n).Mirrors (Tables.Mirrored own ρ locals kept scope) t
      (refuseMainName line (writtenIn own ρ scope n)) t' := by
  unfold refuseMainName
  split
  · exact Step.mirrors_failAt
  · rename_i hn
    have hn' : writtenIn own ρ scope n ≠ mainName := by
      unfold writtenIn
      split
      · rename_i hown
        exact hmain hown
      · exact hn
    rw [if_neg hn']
    exact Step.mirrors_pure h

include hinjective

/-- A name is declared as it is written in each of the runs. -/
lemma declareName_mirrors {line : UInt32} (hx : j = own → n ∈ locals ∧ ∃ slot, x = .var slot) :
    (declareName line j n x).Mirrors (Tables.Mirrored own ρ locals kept scope) t
      (declareName line j (writtenIn own ρ j n) x) t' := by
  unfold declareName
  refine Step.mirrors_get_bind ?_
  split
  · rename_i tables htables
    obtain ⟨hnew, rfl⟩ := Tables.enter_eq_some.mp htables
    have hnew' : t'.binding? j (writtenIn own ρ j n) = none := by
      rw [h.renamed]
      unfold writtenIn
      split
      · rename_i hown
        subst hown
        rw [Tables.binding?_renameIn_self, hnew]
        exact fun m hm heq => hinjective m (h.mem_locals m hm) n (hx rfl).1 heq
      · rename_i hown
        rw [Tables.binding?_renameIn_of_ne hown]
        exact hnew
    rw [Tables.enter_eq_some.mpr ⟨hnew', rfl⟩]
    exact Step.mirrors_set (h.add hx)
  · exact Step.mirrors_failAt

/-- A parameter is declared as it is written in each of the runs. -/
lemma Parameter.declare_mirrors (p : Parameter) (hp : scope = own → p.decl.Free ρ locals) :
    (p.declare scope).Mirrors (Tables.Mirrored own ρ locals kept scope) t
      ((p.rename (writtenIn own ρ scope)).declare scope) t' := by
  unfold declare
  refine (refuseMainName_mirrors h fun hown => (hp hown).notMain).bind fun _ u u' hu => ?_
  refine (TypeExpr.resolve_mirrors hu p.type fun hown => (hp hown).notType).bind
    fun type v v' hv => Step.mirrors_get_bind ?_
  have harray : (v'.types.isArray type && !(p.rename (writtenIn own ρ scope)).isReference) =
      (v.types.isArray type && !p.isReference) := by
    rw [hv.renamed, Tables.types_renameIn]
    rfl
  rw [harray]
  split
  · exact Step.mirrors_failAt
  · exact (declareName_mirrors hinjective hv fun hown => ⟨(hp hown).mem, _, rfl⟩).bind
      fun _ _ _ hw => Step.mirrors_pure hw

/-- A local variable is declared as it is written in each of the runs. -/
lemma LocalVar.declare_mirrors (v : LocalVar) (hv : scope = own → v.decl.Free ρ locals) :
    (v.declare scope).Mirrors (Tables.Mirrored own ρ locals kept scope) t
      ((v.rename (writtenIn own ρ scope)).declare scope) t' := by
  unfold declare
  refine (refuseMainName_mirrors h fun hown => (hv hown).notMain).bind fun _ u u' hu => ?_
  refine (TypeExpr.resolve_mirrors hu v.type fun hown => (hv hown).notType).bind
    fun type w w' hw => ?_
  exact declareName_mirrors hinjective hw fun hown => ⟨(hv hown).mem, _, rfl⟩

/-- What is inside a procedure is declared as it is written in each of the runs. -/
lemma Procedure.declareInside_mirrors (r : Procedure)
    (hr : scope = own → ∀ d ∈ r.decls, d.Free ρ locals) :
    (r.declareInside scope).Mirrors (Tables.Mirrored own ρ locals kept scope) t
      ((r.rename (writtenIn own ρ scope)).declareInside scope) t' := by
  unfold declareInside
  have hparameters : List.Forall₂ (fun p p' => ∀ t t', t.Mirrored own ρ locals kept scope t' →
      (Parameter.declare scope p).Mirrors (Tables.Mirrored own ρ locals kept scope) t
        (Parameter.declare scope p') t') r.parameters
      (r.parameters.map (Parameter.rename (writtenIn own ρ scope))) := by
    rw [List.forall₂_map_right_iff, List.forall₂_same]
    exact fun p hp t t' h => p.declare_mirrors hinjective h fun hown =>
      hr hown _ (List.mem_append_left _ (List.mem_map_of_mem hp))
  have hlocals : List.Forall₂ (fun v v' => ∀ t t', t.Mirrored own ρ locals kept scope t' →
      (LocalVar.declare scope v).Mirrors (Tables.Mirrored own ρ locals kept scope) t
        (LocalVar.declare scope v') t') r.locals
      (r.locals.map (LocalVar.rename (writtenIn own ρ scope))) := by
    rw [List.forall₂_map_right_iff, List.forall₂_same]
    exact fun v hv t t' h => v.declare_mirrors hinjective h fun hown =>
      hr hown _ (List.mem_append_right _ (List.mem_map_of_mem hv))
  refine (Step.mirrors_mapM hparameters h).bind fun slots u u' hu => ?_
  refine (Step.mirrors_forM hlocals hu).bind fun _ v v' hv => ?_
  have hglobal : writtenIn own ρ .global r.name = r.name := by
    unfold writtenIn
    rw [if_neg hv.inside.symm]
    rfl
  have hname :
      (declareName r.mark.line .global r.name (.procedure { scope, parameters := slots })).Mirrors
      (Tables.Mirrored own ρ locals kept scope) v
      (declareName r.mark.line .global (writtenIn own ρ .global r.name)
        (.procedure { scope, parameters := slots })) v' :=
    declareName_mirrors hinjective hv fun hown => absurd hown hv.inside.symm
  rw [hglobal] at hname
  exact hname

/-- A procedure whose variables keep their names is declared alike. -/
lemma Procedure.declare_mirrors (r : Procedure) :
    r.declare.Mirrors (Tables.Mirrored own ρ locals kept own) t r.declare t' := by
  intro a u hrun
  obtain ⟨hnew, hne, hlength⟩ := h.newScope
  rw [r.declare_outcome] at hrun
  rw [r.declare_outcome, hlength]
  have hinside := r.declareInside_mirrors hinjective hnew fun hown => absurd hown hne
  unfold writtenIn at hinside
  rw [if_neg hne, r.rename_id] at hinside
  obtain ⟨u', hrun', hu⟩ := hinside a u hrun
  exact ⟨u', hrun', hu.leave⟩

end

/-- Once a procedure has been declared, its name is bound to an entry with the scope of its
variables. -/
lemma Procedure.binding?_of_declareInside {q : Procedure} (hexists : t'.HasScope .global)
    (hrun : (q.declareInside scope).outcome t = (.ok (), t')) :
    ∃ e, t'.binding? .global q.name = some (.procedure e) ∧ e.scope = scope := by
  obtain ⟨slots, t₁, -, hrun⟩ := Step.outcome_bind_eq_ok.mp hrun
  obtain ⟨_, t₂, -, hrun⟩ := Step.outcome_bind_eq_ok.mp hrun
  obtain ⟨hnew, rfl⟩ := declareName_ends.of_ok hrun
  refine ⟨{ scope, parameters := slots }, ?_, rfl⟩
  rw [Tables.hasScope_modifyScope] at hexists
  exact (hexists.binding?_add_eq_some hnew).mpr (.inr ⟨rfl, rfl⟩)

/-- If a program is declared, then so is the program in which the variables of a procedure have
other names, and the tables are the same but for these names. -/
lemma Program.declare_rename {before after : List Definition} {q : Procedure}
    (hq : q.Renamable ρ)
    (hrun : (Program.mk (before ++ .procedure q :: after)).declare.outcome .predefined = (.ok (), t)) :
    ∃ e, t.binding? .global q.name = some (.procedure e) ∧
      (Program.mk (before ++ .procedure (q.rename ρ) :: after)).declare.outcome .predefined =
        (.ok (), t.renameIn e.scope ρ) := by
  unfold declare at hrun ⊢
  rw [typeDefs_around, procedures_around] at hrun
  rw [typeDefs_around, procedures_around]
  obtain ⟨_, t₀, htypes, hrun⟩ := Step.outcome_bind_eq_ok.mp hrun
  obtain ⟨t₁, hfirst, hrun⟩ := Step.outcome_forM_append.mp hrun
  obtain ⟨_, t₂, hown, hlast⟩ := Step.outcome_bind_eq_ok.mp hrun
  -- up to the procedure, the two programs are the same
  have hlists : t₁.Lists _ (Program.mk before).procedures :=
    ((Step.ends_forM_inOrder (fun done t' => t'.Lists _ done) (Program.mk before).procedures
      ((Step.ends_forM_inOrder (fun done t' => t'.Lists done []) _ Tables.predefined_lists
        fun done d _ _ t₁ h₁ => d.declare_ends h₁).of_ok htypes).2
      fun done r _ _ t₁ h₁ => r.declare_ends h₁).of_ok hfirst).2
  have hstart : (t₁.newScope .global).2.Mirrored ⟨t₁.scopes.length⟩ ρ
      (q.decls.map VariableDecl.name) [] ⟨t₁.scopes.length⟩ (t₁.newScope .global).2 :=
    Tables.mirrored_newScope hlists.holds.outermost
  -- the procedure itself is declared under both names
  have hinside := q.declareInside_mirrors hq.injective_names hstart fun _ d hd => hq.free hd
  unfold writtenIn at hinside
  rw [if_pos rfl] at hinside
  obtain ⟨t₂', hown', hmirrored⟩ := hinside _ t₂ (q.declare_outcome t₁ ▸ hown)
  obtain ⟨e, hbound, hscope⟩ := Procedure.binding?_of_declareInside hmirrored.hasScope_global
    (q.declare_outcome t₁ ▸ hown)
  -- the procedures behind it keep their names
  have hkept := hmirrored.keep (y := (q.name, .procedure e)) hbound
  obtain ⟨t', hlast', hfinal⟩ := Step.mirrors_forM (List.forall₂_same.mpr fun r _ _ _ h =>
    r.declare_mirrors hq.injective_names h) hkept _ _ hlast
  refine ⟨e, hfinal.kept _ List.mem_cons_self, ?_⟩
  rw [hscope, ← hfinal.renamed]
  refine Step.outcome_bind_eq_ok.mpr ⟨_, t₀, htypes, Step.outcome_forM_append.mpr ⟨t₁, hfirst, ?_⟩⟩
  exact Step.outcome_bind_eq_ok.mpr ⟨_, t₂', ((q.rename ρ).declare_outcome t₁).trans hown', hlast'⟩

end TreeCompiler
