import TreeCompiler.Declaration
import TreeCompiler.Proofs.Scope.Declarable

/-!
# What declaring a program does

Every step of the declaration keeps the tables such that they hold the types and the procedures
declared so far, whose names the global scope lists in order (`Tables.Lists`), and it fails exactly if
what is declared is not admitted after them.  While the variables of a procedure are declared, all
that changes is the new scope at the end of the list of scopes, and the table of types grows.  The
outcome is that a declaration that starts from the predefined tables succeeds exactly if the program
can be declared (`Program.declare_accepts`), and that its tables then belong to the program
(`Program.declare_belongTo`).
-/

namespace TreeCompiler

variable {names : List (String × ValueShape)} {procedures : List Procedure} {t t' before : Tables}
  {scope : ScopeId} {n : String}

/-- What a name means depends on the scopes only. -/
lemma Tables.lookup_congr (h : t'.scopes = t.scopes) : t'.lookup scope n = t.lookup scope n := by
  have hchain : ∀ k id, t'.chainUpTo k id = t.chainUpTo k id := by
    intro k
    induction k with
    | zero => exact fun _ => rfl
    | succ k ih =>
      intro id
      unfold Tables.chainUpTo Tables.scope?
      rw [h]
      simp only [ih]
  unfold Tables.lookup Tables.chain
  rw [hchain]

/-! ### Types -/

/-- In a scope the names of types stand for their shapes, up to the names that are hidden. -/
structure Tables.Sees (names : List (String × ValueShape)) (hidden : List String) (t : Tables)
    (scope : ScopeId) : Prop where
  shape : ∀ n id, t.lookup scope n = some (.type id) →
    n ∉ hidden ∧ ∃ s, names.lookup n = some s ∧ t.types.shape? id = some s
  bound : ∀ n s, n ∉ hidden → names.lookup n = some s → ∃ id, t.lookup scope n = some (.type id)

/-- A written type stands for its shape if it makes sense in a scope, and otherwise it is refused; the
scopes stay as they are. -/
lemma TypeExpr.resolve_ends {hidden : List String} (e : TypeExpr) (hwf : t.types.WellFormed)
    (hsees : t.Sees names hidden scope) :
    (e.resolve scope).Ends t
      (fun id t' => t'.scopes = t.scopes ∧ t'.types.WellFormed ∧ t.types.Keeps t'.types ∧
        e.root ∉ hidden ∧ ∃ s, e.shape? names = some s ∧ t'.types.shape? id = some s)
      fun _ _ => ¬(e.root ∉ hidden ∧ e.Admitted names) := by
  induction e with
  | named mark name =>
    have hrefuse : (∀ id, t.lookup scope name ≠ some (.type id)) →
        ¬(name ∉ hidden ∧ (TypeExpr.named mark name).Admitted names) := by
      rintro hnone ⟨hvisible, s, hs, -⟩
      obtain ⟨id, hid⟩ := hsees.bound name s hvisible hs
      exact hnone id hid
    unfold resolve
    rw [Step.ends_bind, Step.ends_get]
    split
    · rename_i hnone
      exact hrefuse fun id hid => by rw [hnone] at hid; cases hid
    · rename_i id hid
      obtain ⟨hvisible, s, hs, hshape⟩ := hsees.shape name id hid
      exact ⟨rfl, hwf, fun _ _ h => h, hvisible, s, hs, hshape⟩
    · rename_i entry hother hentry
      exact hrefuse fun id hid => hother id (Option.some.inj (hentry.symm.trans hid))
  | array mark length base ih =>
    unfold resolve
    rw [Step.ends_bind]
    refine ih.mono (fun id t₁ h => ?_) fun _ _ h => ?_
    · obtain ⟨hscopes, hwf₁, hkeeps, hvisible, s, hs, hshape⟩ := h
      have hs' : (TypeExpr.array mark length base).shape? names = some (.array length.toNat s) := by
        rw [shape?, hs]
        rfl
      rw [Step.ends_bind, Step.ends_get]
      split
      · rename_i new types hadd
        obtain ⟨hwf₂, hnew, hkeeps₂⟩ := hwf₁.addArray_spec hshape hadd
        rw [Step.ends_bind, Step.ends_set, Step.ends_pure]
        exact ⟨hscopes, hwf₂, fun id s h => hkeeps₂ id s (hkeeps id s h), hvisible, _, hs', hnew⟩
      · rename_i hadd
        rintro ⟨-, s', hs'', hfits⟩
        rw [hs'] at hs''
        cases hs''
        exact hwf₁.not_fits_of_addArray hshape hadd hfits
    · rintro ⟨hvisible, s, hs, hfits⟩
      obtain ⟨s', hs', rfl⟩ := Option.map_eq_some_iff.mp hs
      exact h ⟨hvisible, s', hs', hfits.1⟩

/-- Declaring a name enters it, or tells that it is bound and leaves the tables as they are. -/
lemma runOn_declareName {line : UInt32} {name : String} {entry : Entry} :
    (declareName line scope name entry).runOn t = match t.enter scope name entry with
      | some t' => (.ok (), t')
      | none => (.error (.atLine line (.alreadyDeclared name)), t) := by
  change Pass.runOn (match t.enter scope name entry with
    | some tables => set tables
    | none => Pass.failAt line (SemanticError.alreadyDeclared name)) t = _
  cases t.enter scope name entry with
  | some t' => rfl
  | none => rfl

/-- Declaring a name enters it, or leaves the tables as they are. -/
lemma declareName_enters {line : UInt32} {name : String} {entry : Entry} :
    (declareName line scope name entry).Ends t (fun _ t' => t.enter scope name entry = some t')
      fun _ t' => t.enter scope name entry = none ∧ t' = t := by
  have hrun : (declareName line scope name entry).outcome t = _ := runOn_declareName
  unfold Step.Ends
  rw [hrun]
  cases t.enter scope name entry with
  | some t' => exact rfl
  | none => exact ⟨rfl, rfl⟩

/-- A name that is declared was new in its scope. -/
lemma declareName_ends {line : UInt32} {name : String} {entry : Entry} :
    (declareName line scope name entry).Ends t
      (fun _ t' => t.binding? scope name = none ∧ t' = t.modifyScope scope (·.add name entry))
      fun _ _ => t.binding? scope name ≠ none := by
  refine declareName_enters.mono (fun _ t' h => Tables.enter_eq_some.mp h) fun _ _ h hnew => ?_
  rw [Tables.enter_eq_some.mpr ⟨hnew, rfl⟩] at h
  cases h.1

/-- Only the name of the main procedure is refused, and nothing changes. -/
lemma refuseMainName_ends {line : UInt32} {name : String} :
    (refuseMainName line name).Ends t (fun _ t' => t' = t ∧ name ≠ mainName)
      fun _ _ => name = mainName := by
  unfold refuseMainName
  split
  · rename_i hmain
    exact hmain
  · rename_i hmain
    exact ⟨rfl, hmain⟩

/-! ### Variables -/

/-- The tables while the variables of a procedure are declared: a new scope at the end binds them,
and the table of types has grown. -/
structure Tables.Declaring (names : List (String × ValueShape)) (before : Tables)
    (done : List VariableDecl) (t : Tables) : Prop where
  wellFormed : t.types.WellFormed
  keeps : before.types.Keeps t.types
  symbols : ∃ symbols, t.scopes = before.scopes ++ [⟨some .global, symbols⟩] ∧
    List.Forall₂ (Symbol.Declares names t.types) symbols done
  nodup : (done.map VariableDecl.name).Nodup

namespace Tables.Declaring

variable {done : List VariableDecl}

/-- The handle of the new scope finds it. -/
lemma scope?_new (h : before.Declaring names done t) :
    ∃ symbols, t.scope? ⟨before.scopes.length⟩ = some ⟨some .global, symbols⟩ ∧
      List.Forall₂ (Symbol.Declares names t.types) symbols done := by
  obtain ⟨symbols, hscopes, hsymbols⟩ := h.symbols
  refine ⟨symbols, ?_, hsymbols⟩
  unfold Tables.scope?
  rw [hscopes, List.getElem?_append_right (Nat.le_refl _), Nat.sub_self]
  rfl

/-- The scopes that were there before are as they were. -/
lemma scope?_old (h : before.Declaring names done t) {id : ScopeId} (hid : before.HasScope id) :
    t.scope? id = before.scope? id := by
  obtain ⟨symbols, hscopes, -⟩ := h.symbols
  unfold Tables.scope?
  rw [hscopes]
  exact List.getElem?_append_left hid

/-- The bindings of the scopes that were there before are as they were. -/
lemma binding?_old (h : before.Declaring names done t) {id : ScopeId} (hid : before.HasScope id) :
    t.binding? id n = before.binding? id n := by
  unfold Tables.binding? Tables.scope
  rw [h.scope?_old hid]

/-- The names that the new scope binds are those of the declared variables. -/
lemma binding?_new (h : before.Declaring names done t) :
    t.binding? ⟨before.scopes.length⟩ n = none ↔ n ∉ done.map VariableDecl.name := by
  obtain ⟨symbols, hnew, hsymbols⟩ := h.scope?_new
  unfold Tables.binding?
  rw [Tables.scope_of_scope? hnew, Scope.find?_eq_none_iff, Scope.names_eq_of_declares hsymbols]

/-- In the new scope a name means a declared variable, or else what it means globally. -/
lemma lookup_new (h : before.Declaring names done t) (hbefore : before.Holds names procedures) :
    t.lookup ⟨before.scopes.length⟩ n =
      (t.binding? ⟨before.scopes.length⟩ n).or (before.lookup .global n) := by
  obtain ⟨global, hglobal⟩ := hbefore.outermost
  have hexists : before.HasScope .global := Tables.hasScope_of_scope? hglobal
  obtain ⟨symbols, hnew, -⟩ := h.scope?_new
  have hne : (⟨before.scopes.length⟩ : ScopeId) ≠ .global := by
    intro heq
    rw [← heq] at hexists
    exact Nat.lt_irrefl _ hexists
  have houter : (t.scope .global).parent = none := by
    rw [Tables.scope_of_scope? ((h.scope?_old hexists).trans hglobal)]
  rw [Tables.lookup_local hnew rfl hne houter, h.binding?_old hexists, Tables.lookup_global]

/-- In the new scope a name that means a type means it globally, and no variable hides it. -/
lemma lookup_type (h : before.Declaring names done t) (hbefore : before.Holds names procedures)
    {id : TypeId} (hid : t.lookup ⟨before.scopes.length⟩ n = some (.type id)) :
    n ∉ done.map VariableDecl.name ∧ before.lookup .global n = some (.type id) := by
  obtain ⟨symbols, hnew, hsymbols⟩ := h.scope?_new
  rw [h.lookup_new hbefore, Option.or_eq_some_iff] at hid
  rcases hid with hid | ⟨hnone, hid⟩
  · unfold Tables.binding? at hid
    rw [Tables.scope_of_scope? hnew] at hid
    obtain ⟨d, -, -, slot, hentry, -⟩ := Scope.find?_eq_some_of_declares hsymbols hid
    cases hentry
  · exact ⟨h.binding?_new.mp hnone, hid⟩

/-- In the new scope the names of types mean what they do in the global one, unless a variable hides
them. -/
lemma sees (h : before.Declaring names done t) (hbefore : before.Holds names procedures)
    (hsees : before.Sees names [] .global) :
    t.Sees names (done.map VariableDecl.name) ⟨before.scopes.length⟩ := by
  refine ⟨fun n id hid => ?_, fun n s hn hs => ?_⟩
  · obtain ⟨hvisible, hglobal⟩ := h.lookup_type hbefore hid
    obtain ⟨-, s, hs, hshape⟩ := hsees.shape n id hglobal
    exact ⟨hvisible, s, hs, h.keeps id s hshape⟩
  · rw [h.lookup_new hbefore, h.binding?_new.mpr hn]
    exact hsees.bound n s List.not_mem_nil hs

/-- Growing the table of types alone keeps what is declared. -/
lemma grow (h : before.Declaring names done t) (hscopes : t'.scopes = t.scopes)
    (hwf : t'.types.WellFormed) (hkeeps : t.types.Keeps t'.types) :
    before.Declaring names done t' := by
  obtain ⟨symbols, hsymbols, hdeclares⟩ := h.symbols
  exact ⟨hwf, fun id s hs => hkeeps id s (h.keeps id s hs),
    ⟨symbols, hscopes.trans hsymbols, hdeclares.imp fun _ _ hx => hx.keeps hkeeps⟩, h.nodup⟩

/-- A name that is new in the new scope is one more declared variable. -/
lemma add (h : before.Declaring names done t) {d : VariableDecl} {slot : Slot}
    (hslot : slot.Holds names t.types d)
    (hnew : t.binding? ⟨before.scopes.length⟩ d.name = none) :
    before.Declaring names (done ++ [d])
      (t.modifyScope ⟨before.scopes.length⟩ (·.add d.name (.var slot))) := by
  obtain ⟨symbols, hscopes, hsymbols⟩ := h.symbols
  obtain ⟨symbols', hfound, -⟩ := h.scope?_new
  have hscope : t.scope ⟨before.scopes.length⟩ = ⟨some .global, symbols⟩ := by
    apply Tables.scope_of_scope?
    unfold Tables.scope?
    rw [hscopes, List.getElem?_append_right (Nat.le_refl _), Nat.sub_self]
    rfl
  refine ⟨h.wellFormed, h.keeps, ⟨symbols ++ [⟨d.name, .var slot⟩], ?_, ?_⟩, ?_⟩
  · unfold Tables.modifyScope
    dsimp only
    rw [hscopes]
    exact List.modifyTailIdx_add _ 0 before.scopes _
  · exact List.rel_append hsymbols (.cons ⟨rfl, slot, rfl, hslot⟩ .nil)
  · rw [h.binding?_new] at hnew
    rw [List.map_append, List.nodup_append]
    refine ⟨h.nodup, List.nodup_singleton _, fun a ha b hb heq => ?_⟩
    rw [List.map_singleton, List.mem_singleton] at hb
    exact hnew (hb ▸ heq ▸ ha)

end Tables.Declaring

section
variable {done : List VariableDecl} (hbefore : before.Holds names procedures)
  (hsees : before.Sees names [] .global)
include hbefore hsees

/-- Declaring a parameter that is admitted adds it to the declared variables. -/
lemma Parameter.declare_ends (p : Parameter) (h : before.Declaring names done t) :
    (p.declare ⟨before.scopes.length⟩).Ends t
      (fun slot t' => (p.decl.Admitted names done ∧ p.Passable names) ∧
        before.Declaring names (done ++ [p.decl]) t' ∧ t.types.Keeps t'.types ∧
        slot.Holds names t'.types p.decl)
      fun _ _ => ¬(p.decl.Admitted names done ∧ p.Passable names) := by
  unfold declare
  rw [Step.ends_bind]
  refine refuseMainName_ends.mono (fun _ t₁ h₁ => ?_) fun _ _ hmain h => h.1.notMain hmain
  obtain ⟨rfl, hmain⟩ := h₁
  rw [Step.ends_bind]
  refine (p.type.resolve_ends h.wellFormed (h.sees hbefore hsees)).mono (fun type t₂ h₂ => ?_)
    fun _ _ hrefused h => hrefused ⟨h.1.visible, h.1.type⟩
  obtain ⟨hscopes, hwf, hkeeps, hvisible, s, hs, hshape⟩ := h₂
  have hdeclaring := h.grow hscopes hwf hkeeps
  have hpassable : t₂.types.isArray type = !s.isScalar := hwf.isArray_eq hshape
  rw [Step.ends_bind, Step.ends_get, hpassable]
  split
  · rename_i harray
    rintro ⟨-, hscalar⟩
    rw [Bool.and_eq_true, Bool.not_eq_true', Bool.not_eq_true'] at harray
    rw [hscalar harray.2 s hs] at harray
    cases harray.1
  · rename_i harray
    rw [Step.ends_bind]
    refine declareName_ends.mono (fun _ t₃ h₃ => ?_) fun _ _ hold h =>
      hold (hdeclaring.binding?_new.mpr h.1.fresh)
    obtain ⟨hnew, rfl⟩ := h₃
    have hslot : (⟨type, p.isReference, none⟩ : Slot).Holds names t₂.types p.decl :=
      ⟨rfl, s, hs, hshape⟩
    refine ⟨⟨⟨hmain, hdeclaring.binding?_new.mp hnew, hvisible, s, hs, hwf.fits hshape⟩,
      fun href s' hs' => ?_⟩, hdeclaring.add hslot hnew, hkeeps, hslot⟩
    rw [href] at harray
    rw [hs] at hs'
    cases hs'
    simpa using harray

/-- Declaring a local variable that is admitted adds it to the declared variables. -/
lemma LocalVar.declare_ends (v : LocalVar) (h : before.Declaring names done t) :
    (v.declare ⟨before.scopes.length⟩).Ends t
      (fun _ t' => v.decl.Admitted names done ∧
        before.Declaring names (done ++ [v.decl]) t' ∧ t.types.Keeps t'.types)
      fun _ _ => ¬v.decl.Admitted names done := by
  unfold declare
  rw [Step.ends_bind]
  refine refuseMainName_ends.mono (fun _ t₁ h₁ => ?_) fun _ _ hmain h => h.notMain hmain
  obtain ⟨rfl, hmain⟩ := h₁
  rw [Step.ends_bind]
  refine (v.type.resolve_ends h.wellFormed (h.sees hbefore hsees)).mono (fun type t₂ h₂ => ?_)
    fun _ _ hrefused h => hrefused ⟨h.visible, h.type⟩
  obtain ⟨hscopes, hwf, hkeeps, hvisible, s, hs, hshape⟩ := h₂
  have hdeclaring := h.grow hscopes hwf hkeeps
  refine declareName_ends.mono (fun _ t₃ h₃ => ?_) fun _ _ hold h =>
    hold (hdeclaring.binding?_new.mpr h.fresh)
  obtain ⟨hnew, rfl⟩ := h₃
  exact ⟨⟨hmain, hdeclaring.binding?_new.mp hnew, hvisible, s, hs, hwf.fits hshape⟩,
    hdeclaring.add ⟨rfl, s, hs, hshape⟩ hnew, hkeeps⟩

end

/-! ### Procedures -/

/-- What is declared about a procedure stays so while other scopes change and the table of types
grows. -/
lemma Tables.Declares.keeps {q : Procedure} {e : ProcedureEntry} (h : t.Declares names q e)
    (hbound : t'.binding? .global q.name = some (.procedure e))
    (hscope : t'.scope? e.scope = t.scope? e.scope) (hkeeps : t.types.Keeps t'.types) :
    t'.Declares names q e := by
  obtain ⟨symbols, hsymbols, hdeclares⟩ := h.symbols
  exact ⟨hbound, h.isPredefined,
    ⟨symbols, hscope.trans hsymbols, hdeclares.imp fun _ _ hx => hx.keeps hkeeps⟩, h.nodup,
    h.parameters.imp fun _ _ hx => hx.keeps hkeeps, h.scalar⟩

/-- A name that the global scope does not bind is that of no procedure. -/
lemma Tables.Holds.name_notMem (h : t.Holds names procedures) (hnew : t.binding? .global n = none) :
    n ∉ runtimeProcedures.map RuntimeProcedure.name ++ procedures.map Procedure.name := by
  intro hmem
  rcases List.mem_append.mp hmem with hmem | hmem
  · obtain ⟨r, hr, rfl⟩ := List.mem_map.mp hmem
    obtain ⟨e, hbound, -⟩ := h.runtime r hr
    rw [hnew] at hbound
    cases hbound
  · obtain ⟨q, hq, rfl⟩ := List.mem_map.mp hmem
    obtain ⟨e, he⟩ := h.declared q hq
    have hbound := he.bound
    rw [hnew] at hbound
    cases hbound

/-- A procedure whose variables are declared is one more procedure that the tables hold, once its
name is entered. -/
lemma Tables.Declaring.addProcedure {q : Procedure} {parameters : List Slot}
    (hbefore : before.Holds names procedures) (h : before.Declaring names q.decls t)
    (hparameters : List.Forall₂ (Slot.Holds names t.types) parameters
      (q.parameters.map Parameter.decl))
    (hpassable : ∀ x ∈ q.parameters, x.Passable names) (hnew : t.binding? .global q.name = none) :
    (t.modifyScope .global (·.add q.name
      (.procedure { scope := ⟨before.scopes.length⟩, parameters }))).Holds names
        (procedures ++ [q]) := by
  obtain ⟨global, hglobal⟩ := hbefore.outermost
  have hexists : before.HasScope .global := Tables.hasScope_of_scope? hglobal
  have houter : t.scope? .global = some ⟨none, global⟩ := (h.scope?_old hexists).trans hglobal
  obtain ⟨symbols, hscope, hsymbols⟩ := h.scope?_new
  have hinside : (⟨before.scopes.length⟩ : ScopeId) ≠ .global := by
    intro heq
    rw [← heq] at hexists
    exact Nat.lt_irrefl _ hexists
  set entry : ProcedureEntry := { scope := ⟨before.scopes.length⟩, parameters } with hentry
  set after := t.modifyScope .global (·.add q.name (.procedure entry)) with hafter
  have hbinding : ∀ n e, after.binding? .global n = some e ↔
      before.binding? .global n = some e ∨ n = q.name ∧ e = .procedure entry := by
    intro n e
    rw [← h.binding?_old hexists]
    exact (Tables.hasScope_of_scope? houter).binding?_add_eq_some hnew
  have hold : ∀ id : ScopeId, id ≠ .global → before.HasScope id →
      after.scope? id = before.scope? id := by
    intro id hid hhas
    rw [hafter, Tables.scope?_modifyScope, if_neg hid, h.scope?_old hhas]
  have hself : after.Declares names q entry := by
    refine ⟨(hbinding _ _).mpr (.inr ⟨rfl, rfl⟩), rfl, ⟨symbols, ?_, hsymbols⟩, h.nodup, hparameters,
      hpassable⟩
    rw [hafter, Tables.scope?_modifyScope, if_neg hinside, hscope]
  rw [h.binding?_old hexists] at hnew
  refine { wellFormed := h.wellFormed, outermost := ⟨global ++ [⟨q.name, .procedure entry⟩], ?outermost⟩,
           typeNames := ?typeNames, noVariable := ?noVariable, runtime := ?runtime,
           declared := ?declared, origin := ?origin, inside := ?inside, separate := ?separate,
           nodup := ?nodup }
  case outermost =>
    rw [hafter, Tables.scope?_modifyScope, if_pos rfl, houter]
    rfl
  case typeNames =>
    intro n id hid
    rcases (hbinding _ _).mp hid with hid | ⟨-, hid⟩
    · obtain ⟨s, hs, hshape⟩ := hbefore.typeNames n id hid
      exact ⟨s, hs, h.keeps id s hshape⟩
    · cases hid
  case noVariable =>
    intro n slot hslot
    rcases (hbinding _ _).mp hslot with hslot | ⟨-, hslot⟩
    · exact hbefore.noVariable n slot hslot
    · cases hslot
  case runtime =>
    intro r hr
    obtain ⟨e, hbound, hrest⟩ := hbefore.runtime r hr
    exact ⟨e, (hbinding _ _).mpr (.inl hbound), hrest⟩
  case declared =>
    intro q' hq'
    rcases List.mem_append.mp hq' with hq' | hq'
    · obtain ⟨e, he⟩ := hbefore.declared q' hq'
      obtain ⟨hne, hhas⟩ := hbefore.inside _ _ he.bound
      exact ⟨e, he.keeps ((hbinding _ _).mpr (.inl he.bound)) (hold _ hne hhas) h.keeps⟩
    · rw [List.mem_singleton] at hq'
      subst hq'
      exact ⟨entry, hself⟩
  case origin =>
    intro n e he
    rcases (hbinding _ _).mp he with he | ⟨rfl, -⟩
    · rcases hbefore.origin n e he with hr | ⟨q', hq', hname⟩
      · exact .inl hr
      · exact .inr ⟨q', List.mem_append_left _ hq', hname⟩
    · exact .inr ⟨q, List.mem_append_right _ List.mem_cons_self, rfl⟩
  case inside =>
    intro n e he
    rcases (hbinding _ _).mp he with he | ⟨-, he⟩
    · obtain ⟨hne, hhas⟩ := hbefore.inside n e he
      refine ⟨hne, Tables.hasScope_of_scope? (s := before.scope e.scope) ?_⟩
      rw [hold _ hne hhas, hhas.scope?_eq]
    · cases he
      obtain ⟨symbols', hsymbols', -⟩ := hself.symbols
      exact ⟨hinside, Tables.hasScope_of_scope? hsymbols'⟩
  case separate =>
    have hfresh : ∀ n e, before.binding? .global n = some (.procedure e) →
        e.scope ≠ entry.scope := by
      intro n e he heq
      have hhas := (hbefore.inside n e he).2
      rw [heq] at hhas
      exact Nat.lt_irrefl _ hhas
    intro n n' e e' he he' heq
    rcases (hbinding _ _).mp he with hold₁ | ⟨hn, hnew₁⟩ <;>
      rcases (hbinding _ _).mp he' with hold₂ | ⟨hn', hnew₂⟩
    · exact hbefore.separate n n' e e' hold₁ hold₂ heq
    · cases hnew₂
      exact absurd heq (hfresh n e hold₁)
    · cases hnew₁
      exact absurd heq.symm (hfresh n' e' hold₂)
    · rw [hn, hn']
  case nodup =>
    rw [List.map_append, ← List.append_assoc, List.nodup_append]
    refine ⟨hbefore.nodup, List.nodup_singleton _, fun a ha b hb heq => ?_⟩
    rw [List.map_singleton, List.mem_singleton] at hb
    exact hbefore.name_notMem hnew (hb ▸ heq ▸ ha)

/-- In a new scope no variable is declared yet. -/
lemma Tables.Holds.declaring_nil (h : before.Holds names procedures) :
    before.Declaring names [] (before.newScope .global).2 :=
  ⟨h.wellFormed, fun _ _ hs => hs, ⟨[], rfl, .nil⟩, List.nodup_nil⟩

section
variable (hbefore : before.Holds names procedures) (hsees : before.Sees names [] .global)
include hbefore hsees

/-- Declaring the parameters of a procedure gives a slot for each of them, if they are admitted. -/
lemma Parameter.declareAll_ends (parameters : List Parameter) (h : before.Declaring names [] t) :
    (parameters.mapM (Parameter.declare ⟨before.scopes.length⟩)).Ends t
      (fun slots t' => InOrder (fun done (p : Parameter) =>
          p.decl.Admitted names (done.map Parameter.decl) ∧ p.Passable names) parameters ∧
        before.Declaring names (parameters.map Parameter.decl) t' ∧
        List.Forall₂ (Slot.Holds names t'.types) slots (parameters.map Parameter.decl))
      fun _ _ => ¬InOrder (fun done (p : Parameter) =>
        p.decl.Admitted names (done.map Parameter.decl) ∧ p.Passable names) parameters := by
  refine Step.ends_mapM_inOrder (fun done slots t' =>
    before.Declaring names (done.map Parameter.decl) t' ∧
      List.Forall₂ (Slot.Holds names t'.types) slots (done.map Parameter.decl)) parameters
    ⟨h, .nil⟩ fun done p _ slots _ t₁ h₁ => ?_
  obtain ⟨hdone, hslots⟩ := h₁
  refine (p.declare_ends hbefore hsees hdone).mono (fun slot t₂ h₂ => ?_) fun _ _ h => h
  obtain ⟨hadmitted, hdeclaring, hkeeps, hslot⟩ := h₂
  rw [List.map_append]
  exact ⟨hadmitted, hdeclaring, List.rel_append (hslots.imp fun _ _ hx => hx.keeps hkeeps)
    (.cons hslot .nil)⟩

/-- Declaring the local variables of a procedure adds them to its parameters, if they are
admitted. -/
lemma LocalVar.declareAll_ends {done : List VariableDecl} (locals : List LocalVar)
    (h : before.Declaring names done t) :
    (locals.forM (LocalVar.declare ⟨before.scopes.length⟩)).Ends t
      (fun _ t' => InOrder (fun above (v : LocalVar) =>
          v.decl.Admitted names (done ++ above.map LocalVar.decl)) locals ∧
        before.Declaring names (done ++ locals.map LocalVar.decl) t' ∧ t.types.Keeps t'.types)
      fun _ _ => ¬InOrder (fun above (v : LocalVar) =>
        v.decl.Admitted names (done ++ above.map LocalVar.decl)) locals := by
  refine Step.ends_forM_inOrder (fun above t' =>
    before.Declaring names (done ++ above.map LocalVar.decl) t' ∧ t.types.Keeps t'.types) locals
    ⟨by simpa using h, fun _ _ h => h⟩ fun above v _ _ t₁ h₁ => ?_
  obtain ⟨habove, hkeeps₁⟩ := h₁
  refine (v.declare_ends hbefore hsees habove).mono (fun _ t₂ h₂ => ?_) fun _ _ h => h
  obtain ⟨hadmitted, hdeclaring, hkeeps₂⟩ := h₂
  rw [List.map_append, ← List.append_assoc]
  exact ⟨hadmitted, hdeclaring, fun id s hs => hkeeps₂ id s (hkeeps₁ id s hs)⟩

end

/-! ### What is declared in order -/

/-- The tables hold some types and some procedures, and the global scope lists their names in
order. -/
structure Tables.Lists (types : List TypeDef) (procedures : List Procedure) (t : Tables) : Prop where
  holds : t.Holds (typeNamesFrom primitiveNames types) procedures
  names : (t.scope .global).names = globalNames types procedures
  nodup : (globalNames types procedures).Nodup

namespace Tables.Lists

variable {types : List TypeDef}

/-- The names that the global scope does not bind are those that are new. -/
lemma binding?_global (h : t.Lists types procedures) :
    t.binding? .global n = none ↔ n ∉ globalNames types procedures := by
  unfold Tables.binding?
  rw [Scope.find?_eq_none_iff, h.names]

/-- The names of the types are bound to types. -/
lemma binding?_type (h : t.Lists types procedures)
    (hn : n ∈ primitiveNames.map Prod.fst ++ types.map TypeDef.name) :
    ∃ id, t.binding? .global n = some (.type id) := by
  have hmem : n ∈ globalNames types procedures := by
    unfold globalNames predefinedNames
    simp only [List.mem_append] at hn ⊢
    grind
  cases hbound : t.binding? .global n with
  | none => exact absurd hmem (h.binding?_global.mp hbound)
  | some entry =>
    cases entry with
    | type id => exact ⟨id, rfl⟩
    | var slot => exact absurd hbound (h.holds.noVariable n slot)
    | procedure e =>
      -- A procedure of this name would stand in the global scope a second time.
      have hother : n ∈ runtimeProcedures.map RuntimeProcedure.name ++
          procedures.map Procedure.name := by
        rcases h.holds.origin n e hbound with ⟨r, hr, rfl⟩ | ⟨q, hq, rfl⟩
        · exact List.mem_append_left _ (List.mem_map_of_mem hr)
        · exact List.mem_append_right _ (List.mem_map_of_mem hq)
      have hnodup := h.nodup
      unfold globalNames predefinedNames at hnodup
      simp only [List.nodup_append, List.mem_append] at hnodup hn hother
      grind

/-- In the global scope the names of types mean what they should. -/
lemma sees (h : t.Lists types procedures) :
    t.Sees (typeNamesFrom primitiveNames types) [] .global := by
  refine ⟨fun n id hid => ?_, fun n s _ hs => ?_⟩
  · rw [Tables.lookup_global] at hid
    exact ⟨List.not_mem_nil, h.holds.typeNames n id hid⟩
  · rw [Tables.lookup_global]
    exact h.binding?_type (mem_of_lookup_typeNamesFrom hs)

/-- A new name is listed last. -/
lemma nodup_concat (h : t.Lists types procedures) (hn : n ∉ globalNames types procedures) :
    (globalNames types procedures ++ [n]).Nodup := by
  rw [List.nodup_append_comm, List.singleton_append, List.nodup_cons]
  exact ⟨hn, h.nodup⟩

end Tables.Lists

/-- Declaring a procedure that is admitted adds it to the procedures that the tables list. -/
lemma Procedure.declare_ends {types : List TypeDef} (q : Procedure)
    (h : before.Lists types procedures) :
    q.declare.Ends before
      (fun _ t' => (q.name ∉ globalNames types procedures ∧
        q.Admitted (typeNamesFrom primitiveNames types)) ∧ t'.Lists types (procedures ++ [q]))
      fun _ _ => ¬(q.name ∉ globalNames types procedures ∧
        q.Admitted (typeNamesFrom primitiveNames types)) := by
  have hbefore := h.holds
  unfold declare
  rw [Step.ends_bind, Step.ends_get, Step.ends_bind, Step.ends_set, Step.ends_bind]
  refine (Parameter.declareAll_ends hbefore h.sees q.parameters hbefore.declaring_nil).mono
    (fun slots t₁ h₁ => ?_) fun _ _ hrefused h => hrefused (admitted_iff.mp h.2).1
  obtain ⟨hparameters, hdeclaring₁, hslots⟩ := h₁
  rw [Step.ends_bind]
  refine (LocalVar.declareAll_ends hbefore h.sees q.locals hdeclaring₁).mono
    (fun _ t₂ h₂ => ?_) fun _ _ hrefused h => hrefused (admitted_iff.mp h.2).2
  obtain ⟨hlocals, hdeclaring₂, hkeeps⟩ := h₂
  have hadmitted : q.Admitted (typeNamesFrom primitiveNames types) :=
    admitted_iff.mpr ⟨hparameters, hlocals⟩
  obtain ⟨global, hglobal⟩ := hbefore.outermost
  have hexists : before.HasScope .global := Tables.hasScope_of_scope? hglobal
  have hglobal₂ : t₂.scope? .global = some ⟨none, global⟩ :=
    (hdeclaring₂.scope?_old hexists).trans hglobal
  refine declareName_ends.mono (fun _ t₃ h₃ => ?_) fun _ _ hold hnew => hold ?_
  · obtain ⟨hnew, rfl⟩ := h₃
    have hfresh : q.name ∉ globalNames types procedures := by
      rwa [hdeclaring₂.binding?_old hexists, h.binding?_global] at hnew
    have hnames : globalNames types (procedures ++ [q]) =
        globalNames types procedures ++ [q.name] := by
      unfold globalNames
      rw [List.map_append, ← List.append_assoc]
      rfl
    refine ⟨⟨hfresh, hadmitted⟩, Tables.Declaring.addProcedure hbefore hdeclaring₂
      (hslots.imp fun _ _ hx => hx.keeps hkeeps) hadmitted.passable hnew, ?_, ?_⟩
    · rw [(Tables.hasScope_of_scope? hglobal₂).scope_modifyScope_self, Scope.names_add, hnames,
        ← h.names, Tables.scope_of_scope? hglobal₂, Tables.scope_of_scope? hglobal]
    · rw [hnames]
      exact h.nodup_concat hfresh
  · rw [hdeclaring₂.binding?_old hexists]
    exact h.binding?_global.mpr hnew.1

/-! ### Programs -/

/-- The tables hold one more type once its name is entered, before any procedure is declared. -/
lemma Tables.Holds.addType {d : TypeDef} {type : TypeId} {s : ValueShape} (h : t.Holds names [])
    (hscopes : t'.scopes = t.scopes) (hwf : t'.types.WellFormed) (hkeeps : t.types.Keeps t'.types)
    (hshape : t'.types.shape? type = some s) (hnew : t'.binding? .global d.name = none) :
    (t'.modifyScope .global (·.add d.name (.type type))).Holds ((d.name, s) :: names) [] := by
  obtain ⟨global, hglobal⟩ := h.outermost
  have houter : t'.scope? .global = some ⟨none, global⟩ := by
    unfold Tables.scope?
    rw [hscopes]
    exact hglobal
  have hsame : ∀ n, t'.binding? .global n = t.binding? .global n := by
    intro n
    rw [← Tables.lookup_global, ← Tables.lookup_global, Tables.lookup_congr hscopes]
  set after := t'.modifyScope .global (·.add d.name (.type type)) with hafter
  have hbinding : ∀ n e, after.binding? .global n = some e ↔
      t.binding? .global n = some e ∨ n = d.name ∧ e = .type type := by
    intro n e
    rw [← hsame]
    exact (Tables.hasScope_of_scope? houter).binding?_add_eq_some hnew
  have hprocedure : ∀ n e, after.binding? .global n = some (.procedure e) ↔
      t.binding? .global n = some (.procedure e) := by
    intro n e
    rw [hbinding]
    simp
  refine { wellFormed := hwf, outermost := ⟨global ++ [⟨d.name, .type type⟩], ?outermost⟩,
           typeNames := ?typeNames, noVariable := ?noVariable, runtime := ?runtime,
           declared := fun _ hq => absurd hq List.not_mem_nil, origin := ?origin,
           inside := ?inside, separate := ?separate, nodup := h.nodup }
  case outermost =>
    rw [hafter, Tables.scope?_modifyScope, if_pos rfl, houter]
    rfl
  case typeNames =>
    intro n id hid
    rcases (hbinding _ _).mp hid with hold | ⟨hn, hnew₁⟩
    · have hne : n ≠ d.name := by
        rintro rfl
        rw [hsame, hold] at hnew
        cases hnew
      obtain ⟨s', hs', hshape'⟩ := h.typeNames n id hold
      refine ⟨s', ?_, hkeeps id s' hshape'⟩
      rw [List.lookup_cons, beq_eq_false_iff_ne.mpr hne]
      exact hs'
    · cases hnew₁
      exact ⟨s, by rw [hn, List.lookup_cons_self], hshape⟩
  case noVariable =>
    intro n slot hslot
    rcases (hbinding _ _).mp hslot with hold | ⟨-, hslot⟩
    · exact h.noVariable n slot hold
    · cases hslot
  case runtime =>
    intro r hr
    obtain ⟨e, hbound, hrest⟩ := h.runtime r hr
    exact ⟨e, (hprocedure _ _).mpr hbound, hrest⟩
  case origin =>
    intro n e he
    exact h.origin n e ((hprocedure _ _).mp he)
  case inside =>
    intro n e he
    obtain ⟨hne, hhas⟩ := h.inside n e ((hprocedure _ _).mp he)
    refine ⟨hne, ?_⟩
    unfold Tables.HasScope at hhas ⊢
    rw [hafter, Tables.length_scopes_modifyScope, hscopes]
    exact hhas
  case separate =>
    intro n n' e e' he he' heq
    exact h.separate n n' e e' ((hprocedure _ _).mp he) ((hprocedure _ _).mp he') heq

/-- Declaring a type that is admitted adds it to the types that the tables list, before any procedure
is declared. -/
lemma TypeDef.declare_ends {types : List TypeDef} (d : TypeDef) (h : t.Lists types []) :
    d.declare.Ends t (fun _ t' => d.Admitted types ∧ t'.Lists (types ++ [d]) [])
      fun _ _ => ¬d.Admitted types := by
  unfold declare
  rw [Step.ends_bind]
  refine refuseMainName_ends.mono (fun _ t₁ h₁ => ?_) fun _ _ hmain h => h.notMain hmain
  obtain ⟨rfl, hmain⟩ := h₁
  rw [Step.ends_bind]
  refine (d.type.resolve_ends h.holds.wellFormed h.sees).mono (fun type t₂ h₂ => ?_)
    fun _ _ hrefused h => hrefused ⟨List.not_mem_nil, h.type⟩
  obtain ⟨hscopes, hwf, hkeeps, -, s, hs, hshape⟩ := h₂
  have hscope : ∀ id, t₂.scope id = t₁.scope id := by
    intro id
    unfold Tables.scope Tables.scope?
    rw [hscopes]
  have hbinding : t₂.binding? .global d.name = t₁.binding? .global d.name := by
    unfold Tables.binding?
    rw [hscope]
  refine declareName_ends.mono (fun _ t₃ h₃ => ?_) fun _ _ hold hadmitted => hold ?_
  · obtain ⟨hnew, rfl⟩ := h₃
    have hfresh : d.name ∉ globalNames types [] := h.binding?_global.mp (hbinding ▸ hnew)
    have hnames : globalNames (types ++ [d]) [] = globalNames types [] ++ [d.name] := by
      unfold globalNames
      simp
    obtain ⟨global, hglobal⟩ := h.holds.outermost
    have hexists : t₂.HasScope .global := by
      unfold Tables.HasScope
      rw [hscopes]
      exact Tables.hasScope_of_scope? hglobal
    refine ⟨⟨hmain, hfresh, s, hs, hwf.fits hshape⟩, ?_, ?_, ?_⟩
    · rw [typeNamesFrom_concat hs]
      exact h.holds.addType hscopes hwf hkeeps hshape hnew
    · rw [hexists.scope_modifyScope_self, Scope.names_add, hscope, h.names, hnames]
    · rw [hnames]
      exact h.nodup_concat hfresh
  · rw [hbinding]
    exact h.binding?_global.mpr hadmitted.fresh

/-- A symbol that can stand in the predefined global scope: a primitive type, or a procedure of the
runtime library with a scope of its own. -/
private def Symbol.fitsPredefined (x : Symbol) : Bool :=
  match x.entry with
  | .type id =>
    (Tables.predefined.types.shape? id).isSome &&
      primitiveNames.lookup x.name == Tables.predefined.types.shape? id
  | .var _ => false
  | .procedure e =>
    runtimeProcedures.any (fun r => r.name == x.name) && e.scope != .global &&
      decide (e.scope.index < Tables.predefined.scopes.length)

/-- What the predefined global scope binds is one of its symbols, and fits there. -/
private lemma Tables.predefined_binding {n : String} {e : Entry}
    (h : Tables.predefined.binding? .global n = some e) :
    (⟨n, e⟩ : Symbol) ∈ (Tables.predefined.scope .global).symbols ∧
      (⟨n, e⟩ : Symbol).fitsPredefined = true := by
  have hall : ∀ x ∈ (Tables.predefined.scope .global).symbols, x.fitsPredefined = true := by
    decide +kernel
  have hmem := Scope.mem_of_find? h
  exact ⟨hmem, hall _ hmem⟩

/-- The handle of the scope that a symbol's procedure has. -/
private def Symbol.scope? (x : Symbol) : Option ScopeId :=
  match x.entry with
  | .procedure e => some e.scope
  | _ => none

/-- The predefined tables hold the primitive types and no procedures of a program. -/
lemma Tables.predefined_holds : Tables.predefined.Holds primitiveNames [] := by
  have htypes : Tables.predefined.types = {} := by decide +kernel
  refine { wellFormed := ?wellFormed,
           outermost := ⟨(Tables.predefined.scope .global).symbols, ?outermost⟩,
           typeNames := ?typeNames, noVariable := ?noVariable, runtime := ?runtime,
           declared := fun _ hq => absurd hq List.not_mem_nil, origin := ?origin,
           inside := ?inside, separate := ?separate, nodup := by decide }
  case wellFormed =>
    rw [htypes]
    exact TypeTable.wellFormed_empty
  case outermost =>
    have hall : Tables.predefined.HasScope .global ∧
        (Tables.predefined.scope .global).parent = none := by
      decide +kernel
    rw [hall.1.scope?_eq, ← hall.2]
  case typeNames =>
    intro n id hid
    have hfits := (Tables.predefined_binding hid).2
    simp only [Symbol.fitsPredefined, Bool.and_eq_true, beq_iff_eq] at hfits
    obtain ⟨s, hs⟩ := Option.isSome_iff_exists.mp hfits.1
    exact ⟨s, hfits.2.trans hs, hs⟩
  case noVariable =>
    intro n slot hslot
    have hfits := (Tables.predefined_binding hslot).2
    cases hfits
  case runtime =>
    have hall : ∀ r ∈ runtimeProcedures, (Tables.predefined.procedure? r.name).any (fun e =>
        e.isPredefined && e.parameters == r.references.map fun b => ⟨.int, b, none⟩) = true := by
      decide +kernel
    intro r hr
    obtain ⟨e, he, hfits⟩ := (Option.any_eq_true _ _).mp (hall r hr)
    rw [Bool.and_eq_true, beq_iff_eq] at hfits
    refine ⟨e, Tables.procedure?_eq_some.mp he, hfits.1, ?_⟩
    rw [hfits.2, List.forall₂_map_left_iff]
    exact List.forall₂_same.mpr fun _ _ => ⟨rfl, rfl⟩
  case origin =>
    intro n e he
    have hfits := (Tables.predefined_binding he).2
    simp only [Symbol.fitsPredefined, Bool.and_eq_true, List.any_eq_true, beq_iff_eq] at hfits
    exact .inl hfits.1.1
  case inside =>
    intro n e he
    have hfits := (Tables.predefined_binding he).2
    simp only [Symbol.fitsPredefined, Bool.and_eq_true, bne_iff_ne, decide_eq_true_eq] at hfits
    exact ⟨hfits.1.2, hfits.2⟩
  case separate =>
    have hall : ∀ x ∈ (Tables.predefined.scope .global).symbols,
        ∀ y ∈ (Tables.predefined.scope .global).symbols,
          x.scope?.isSome = true → x.scope? = y.scope? → x.name = y.name := by
      decide +kernel
    intro n n' e e' he he' heq
    refine hall ⟨n, _⟩ (Tables.predefined_binding he).1 ⟨n', _⟩ (Tables.predefined_binding he').1 rfl ?_
    simp only [Symbol.scope?, heq]

/-- The predefined tables list what every program can use. -/
lemma Tables.predefined_lists : Tables.predefined.Lists [] [] :=
  ⟨predefined_holds, by decide +kernel, by decide +kernel⟩

/-- Declaring a program succeeds if and only if it can be declared, and the tables then list its types
and its procedures. -/
lemma Program.declare_ends (p : Program) :
    p.declare.Ends .predefined (fun _ t => p.Declarable ∧ t.Lists p.typeDefs p.procedures)
      fun _ _ => ¬p.Declarable := by
  unfold declare
  rw [Step.ends_bind]
  refine (Step.ends_forM_inOrder (fun done t' => t'.Lists done []) p.typeDefs
    Tables.predefined_lists fun done d _ _ t₁ h₁ => d.declare_ends h₁).mono
    (fun _ t₁ h₁ => ?_) fun _ _ hrefused h => hrefused h.types
  refine (Step.ends_forM_inOrder (fun done t' => t'.Lists p.typeDefs done) p.procedures
    h₁.2 fun done q _ _ t₂ h₂ => q.declare_ends h₂).mono
    (fun _ t₂ h₂ => ⟨⟨h₁.1, h₂.1⟩, h₂.2⟩) fun _ _ hrefused h => hrefused h.procedures

/-- The tables in which a program is declared belong to it. -/
theorem Program.declare_belongTo (p : Program) :
    p.declare.Ends .predefined (fun _ t => t.BelongTo p) fun _ _ => True :=
  p.declare_ends.mono (fun _ _ h => h.2.holds) fun _ _ _ => trivial

/-- Declaring a program succeeds if and only if it can be declared.  The global scope then lists the
names that every program can use, the types and the procedures in their order; a type stands for the
shape that is written, and the scope of a procedure, which is inside the global one, lists its
parameters and then its local variables. -/
theorem Program.declare_accepts (p : Program) :
    ((∃ t, p.declare.runOn .predefined = (.ok (), t)) ↔ p.Declarable) ∧
    ∀ t, p.declare.runOn .predefined = (.ok (), t) →
      (t.scope .global).parent = none ∧
      (t.scope .global).names = globalNames p.typeDefs p.procedures ∧
      (∀ d ∈ p.typeDefs, ∃ id s, t.binding? .global d.name = some (.type id) ∧
        p.typeNames.lookup d.name = some s ∧ t.types.shape? id = some s) ∧
      ∀ q ∈ p.procedures, ∃ e, t.Declares p.typeNames q e := by
  refine ⟨⟨fun ⟨t, hrun⟩ => (p.declare_ends.of_ok hrun).1, fun h => ?_⟩, fun t hrun => ?_⟩
  · rcases hrun : p.declare.runOn .predefined with ⟨e | ⟨⟩, t⟩
    · exact absurd h (p.declare_ends.of_error hrun)
    · exact ⟨t, rfl⟩
  · have hlists := (p.declare_ends.of_ok hrun).2
    obtain ⟨global, hglobal⟩ := hlists.holds.outermost
    refine ⟨by rw [Tables.scope_of_scope? hglobal], hlists.names, fun d hd => ?_,
      hlists.holds.declared⟩
    obtain ⟨id, hid⟩ := hlists.binding?_type
      (List.mem_append_right _ (List.mem_map_of_mem (f := TypeDef.name) hd))
    obtain ⟨s, hs, hshape⟩ := hlists.holds.typeNames d.name id hid
    exact ⟨id, s, hid, hs, hshape⟩

/-- A program with a type below the procedures that use it, and a variable that is called like its
own type. -/
def rows : Program where
  definitions := [
    .procedure
      { mark := .atLine 1
        name := "clear"
        parameters := [⟨.atLine 1, "r", .named (.atLine 1) "row", true⟩]
        locals := []
        body := [] },
    .procedure
      { mark := .atLine 3
        name := "main"
        parameters := []
        locals := [⟨.atLine 4, "rows", .array (.atLine 4) 2 (.named (.atLine 4) "row")⟩,
          ⟨.atLine 5, "row", .named (.atLine 5) "row"⟩]
        body := [] },
    .type ⟨.atLine 7, "row", .array (.atLine 7) 3 (.named (.atLine 7) "int")⟩]

/-- The program with rows can be declared, and its type is listed first. -/
theorem Program.declare_accepts_rows : rows.Declarable ∧
    ∃ t, rows.declare.runOn .predefined = (.ok (), t) ∧
      (t.scope .global).names = predefinedNames ++ ["row", "clear", "main"] := by
  have hok : (rows.declare.runOn .predefined).1.isOk = true := by decide +kernel
  rcases hrun : rows.declare.runOn .predefined with ⟨e | ⟨⟩, t⟩
  · rw [hrun] at hok
    cases hok
  · refine ⟨(declare_accepts rows).1.mp ⟨t, hrun⟩, t, rfl, ?_⟩
    rw [((declare_accepts rows).2 t hrun).2.1]
    decide +kernel

end TreeCompiler
