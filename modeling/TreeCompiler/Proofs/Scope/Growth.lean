import TreeCompiler.Proofs.Declaration
import TreeCompiler.Proofs.Pass
import TreeCompiler.Proofs.Scope.Path
import TreeCompiler.Proofs.Types.Requested
import TreeCompiler.Scope

/-!
# How declarations make tables grow

Declaring a program changes the tables in four ways only, whether it succeeds or stops at a fault
(`Tables.GrowsTo`, `Program.declare_grows`): it adds array types, it adds empty scopes inside the
global one, it enters variables, which have no places yet, into scopes that it has added, and it enters
types and procedures into the global scope.  So what was in the tables before stays there, and what is
new stands behind it (`Tables.Extends`).  If every type that the tables speak of exists, it still does
afterwards (`Tables.GrowsTo.typesExist`), and variables without places are all there is
(`Tables.GrowsTo.unplaced`).
-/

namespace TreeCompiler

/-! ### Types that tables speak of -/

/-- The types that an entry speaks of. -/
def Entry.types : Entry → List TypeId
  | .type id => [id]
  | .var slot => [slot.type]
  | .procedure e => e.parameters.map Slot.type

namespace Tables

variable {before t t' : Tables} {id scope : ScopeId} {n name : String} {entry : Entry}

/-- Every type that is stored exists: those of the elements of arrays, and those that the entries
speak of. -/
structure TypesExist (t : Tables) : Prop where
  elements : ∀ a, .array a ∈ t.types.toList → t.types.contains a.base = true
  entries : ∀ id s, t.scope? id = some s → ∀ x ∈ s.symbols, ∀ type ∈ x.entry.types,
    t.types.contains type = true

/-- What is looked up is a symbol of some scope. -/
lemma exists_of_lookup (h : t.lookup id n = some entry) :
    ∃ j s, t.scope? j = some s ∧ ⟨n, entry⟩ ∈ s.symbols := by
  have hchain : ∀ k j, ∀ s ∈ t.chainUpTo k j, ∃ j', t.scope? j' = some s := by
    intro k
    induction k with
    | zero => intro j s hs; cases hs
    | succ k ih =>
      intro j s hs
      unfold chainUpTo at hs
      split at hs
      · cases hs
      · rename_i found hfound
        split at hs
        · exact ⟨j, List.mem_singleton.mp hs ▸ hfound⟩
        · rcases List.mem_cons.mp hs with rfl | hs
          · exact ⟨j, hfound⟩
          · exact ih _ s hs
  obtain ⟨s, hs, hfind⟩ := List.exists_of_findSome?_eq_some h
  obtain ⟨j, hj⟩ := hchain _ _ s hs
  exact ⟨j, s, hj, Scope.mem_of_find? hfind⟩

/-- The types that a looked up entry speaks of exist. -/
lemma TypesExist.lookup (h : t.TypesExist) (hentry : t.lookup id n = some entry) :
    ∀ type ∈ entry.types, t.types.contains type = true := by
  obtain ⟨j, s, hs, hmem⟩ := exists_of_lookup hentry
  exact h.entries j s hs _ hmem

/-- Entering a name changes no types. -/
lemma types_enter (h : t.enter id name entry = some t') : t'.types = t.types := by
  obtain ⟨-, rfl⟩ := enter_eq_some.mp h
  rfl

/-- The types exist in tables with one more scope. -/
lemma TypesExist.newScope (h : t.TypesExist) {parent : ScopeId} :
    (t.newScope parent).2.TypesExist := by
  refine ⟨h.elements, fun id s hs x hx => ?_⟩
  rw [scope?_newScope] at hs
  split at hs
  · cases hs
    cases hx
  · exact h.entries id s hs x hx

/-- The types exist in tables with one more array type. -/
lemma TypesExist.addArray (h : t.TypesExist) {base new : TypeId} {length : Nat} {types : TypeTable}
    (hbase : t.types.contains base = true) (hadd : t.types.addArray base length = some (new, types)) :
    ({ t with types } : Tables).TypesExist := by
  refine ⟨fun a ha => ?_, fun id s hs x hx type htype => ?_⟩
  · rw [(TypeTable.toList_of_addArray hadd).2] at ha
    refine TypeTable.contains_mono (TypeTable.size_le_of_addArray hadd) ?_
    rcases List.mem_append.mp ha with ha | ha
    · exact h.elements a ha
    · cases List.mem_singleton.mp ha
      exact hbase
  · exact TypeTable.contains_mono (TypeTable.size_le_of_addArray hadd)
      (h.entries id s hs x hx type htype)

/-- The types exist in tables in which an entry is entered that speaks of types that exist. -/
lemma TypesExist.enter (h : t.TypesExist) (henter : t.enter id name entry = some t')
    (hentry : ∀ type ∈ entry.types, t.types.contains type = true) : t'.TypesExist := by
  obtain ⟨-, rfl⟩ := enter_eq_some.mp henter
  refine ⟨h.elements, fun j s hs x hx => ?_⟩
  rw [scope?_modifyScope] at hs
  split at hs
  · obtain ⟨old, hold, rfl⟩ := Option.map_eq_some_iff.mp hs
    rcases List.mem_append.mp hx with hx | hx
    · exact h.entries j old hold x hx
    · cases List.mem_singleton.mp hx
      exact hentry
  · exact h.entries j s hs x hx

/-- No variable has a place; what the global scope binds does not matter. -/
def Unplaced (t : Tables) : Prop :=
  ∀ id s, id ≠ .global → t.scope? id = some s → ∀ x ∈ s.symbols, ∀ slot, x.entry = .var slot →
    slot.offset = none

/-- A variable that is found in tables without places has none. -/
lemma Unplaced.offset_eq (h : t.Unplaced) (hid : id ≠ .global) {slot : Slot}
    (hslot : t.binding? id n = some (.var slot)) : slot.offset = none := by
  by_cases hscope : t.HasScope id
  · unfold binding? at hslot
    exact h id _ hid hscope.scope?_eq _ (Scope.mem_of_find? hslot) slot rfl
  · rw [binding?_of_not_hasScope hscope] at hslot
    cases hslot

/-- There are no places in tables in which a name is entered that has none. -/
lemma Unplaced.enter (h : t.Unplaced) (henter : t.enter id name entry = some t')
    (hentry : id ≠ .global → ∀ slot, entry = .var slot → slot.offset = none) : t'.Unplaced := by
  obtain ⟨-, rfl⟩ := enter_eq_some.mp henter
  intro j s hj hs x hx
  rw [scope?_modifyScope] at hs
  split at hs
  · rename_i hji
    obtain ⟨old, hold, rfl⟩ := Option.map_eq_some_iff.mp hs
    rcases List.mem_append.mp hx with hx | hx
    · exact h j old hj hold x hx
    · cases List.mem_singleton.mp hx
      exact hentry (hji ▸ hj)
  · exact h j s hj hs x hx

/-! ### Growth -/

/-- Tables that have grown.  What is entered speaks of types that exist, provided that all the types
existed that the tables spoke of before they grew. -/
inductive GrowsTo (before : Tables) : Tables → Prop where
  | refl : GrowsTo before before
  | newScope {t : Tables} : GrowsTo before t → GrowsTo before (t.newScope .global).2
  | addArray {t : Tables} {base id : TypeId} {length : Nat} {types : TypeTable} :
      GrowsTo before t → (before.TypesExist → t.types.contains base = true) →
      t.types.addArray base length = some (id, types) → GrowsTo before { t with types }
  | addVariable {t t' : Tables} {scope : ScopeId} {name : String} {slot : Slot} :
      GrowsTo before t → ¬before.HasScope scope → slot.offset = none →
      (before.TypesExist → t.types.contains slot.type = true) →
      t.enter scope name (.var slot) = some t' → GrowsTo before t'
  | addGlobal {t t' : Tables} {name : String} {entry : Entry} :
      GrowsTo before t →
      (before.TypesExist → ∀ type ∈ entry.types, t.types.contains type = true) →
      t.enter .global name entry = some t' → GrowsTo before t'

namespace GrowsTo

/-- The scopes that were there before are there. -/
lemma hasScope (h : before.GrowsTo t) (hid : before.HasScope id) : t.HasScope id := by
  induction h with
  | refl => exact hid
  | newScope _ ih => exact hasScope_of_scope? (scope?_newScope_of_some ih.scope?_eq)
  | addArray _ _ _ ih => exact ih
  | addVariable _ _ _ _ henter ih => exact (hasScope_enter henter).mpr ih
  | addGlobal _ _ henter ih => exact (hasScope_enter henter).mpr ih

/-- Tables stay rooted. -/
lemma rooted (h : before.GrowsTo t) (hbefore : before.Rooted) : t.Rooted := by
  induction h with
  | refl => exact hbefore
  | newScope _ ih => exact ih.newScope ih.global
  | addArray _ _ _ ih => exact ⟨ih.global, ih.older⟩
  | addVariable _ _ _ _ henter ih => exact ih.enter henter
  | addGlobal _ _ henter ih => exact ih.enter henter

/-- The types that tables speak of still exist. -/
lemma typesExist (h : before.GrowsTo t) (hbefore : before.TypesExist) : t.TypesExist := by
  induction h with
  | refl => exact hbefore
  | newScope _ ih => exact ih.newScope
  | addArray _ hbase hadd ih => exact ih.addArray (hbase hbefore) hadd
  | addVariable _ _ _ hslot henter ih =>
    refine ih.enter henter fun type htype => ?_
    rw [List.mem_singleton.mp htype]
    exact hslot hbefore
  | addGlobal _ hentry henter ih => exact ih.enter henter (hentry hbefore)

/-- There are still no places. -/
lemma unplaced (h : before.GrowsTo t) (hbefore : before.Unplaced) : t.Unplaced := by
  induction h with
  | refl => exact hbefore
  | newScope _ ih =>
    intro id s hid hs x hx
    rw [scope?_newScope] at hs
    split at hs
    · cases hs
      cases hx
    · exact ih id s hid hs x hx
  | addArray _ _ _ ih => exact ih
  | addVariable _ _ hslot _ henter ih =>
    refine ih.enter henter fun _ slot heq => ?_
    cases heq
    exact hslot
  | addGlobal _ _ henter ih => exact ih.enter henter fun hne => absurd rfl hne

end GrowsTo

end Tables

/-! ### What declarations do -/

section
variable {before t t' : Tables} {scope : ScopeId} {name : String} {entry : Entry}

/-- A written type is resolved to a type that exists; on the way array types are added. -/
lemma TypeExpr.resolve_grows (e : TypeExpr) (h : before.GrowsTo t) :
    (e.resolve scope).Ends t
      (fun id t' => before.GrowsTo t' ∧ (before.TypesExist → t'.types.contains id = true) ∧
        t.types.size ≤ t'.types.size)
      fun _ => before.GrowsTo := by
  induction e with
  | named mark name =>
    unfold resolve
    rw [Step.ends_bind, Step.ends_get]
    split
    · exact h
    · rename_i id hid
      exact ⟨h, fun hexist => (h.typesExist hexist).lookup hid id List.mem_cons_self, le_rfl⟩
    · exact h
  | array mark length base ih =>
    unfold resolve
    rw [Step.ends_bind]
    refine ih.mono (fun id t₁ h₁ => ?_) fun _ _ h => h
    obtain ⟨hgrows, hbase, hsize⟩ := h₁
    rw [Step.ends_bind, Step.ends_get]
    split
    · rename_i new types hadd
      exact ⟨hgrows.addArray hbase hadd, fun _ => TypeTable.contains_new_of_addArray hadd,
        hsize.trans (TypeTable.size_le_of_addArray hadd)⟩
    · exact hgrows

/-- Refusing a name leaves the tables as they are, so that only what follows matters. -/
lemma ends_refuseMainName_bind {α : Type} {line : UInt32} {s : Pass SemanticError α}
    {ok : α → Tables → Prop} {bad : Tables → Prop} (ht : bad t) (hs : s.Ends t ok fun _ => bad) :
    (refuseMainName line name >>= fun _ => s).Ends t ok fun _ => bad := by
  rw [Step.ends_bind]
  unfold refuseMainName
  split
  · exact ht
  · exact hs

/-- Declaring a type makes the tables grow. -/
lemma TypeDef.declare_grows (d : TypeDef) : d.declare.Keeps before.GrowsTo := by
  intro t ht
  refine ends_refuseMainName_bind ht ?_
  rw [Step.ends_bind]
  refine (d.type.resolve_grows ht).mono (fun id t₁ h₁ => ?_) fun _ _ h => h
  refine declareName_enters.mono (fun _ t₂ henter => ?_) fun _ _ h => h.2 ▸ h₁.1
  refine h₁.1.addGlobal (fun hexist type htype => ?_) henter
  rw [List.mem_singleton.mp htype]
  exact h₁.2.1 hexist

/-- Declaring a parameter in a new scope makes the tables grow, and the slot is of a type that
exists. -/
lemma Parameter.declare_grows (p : Parameter) (hscope : ¬before.HasScope scope)
    (h : before.GrowsTo t) : (p.declare scope).Ends t
      (fun slot t' => before.GrowsTo t' ∧
        (before.TypesExist → t'.types.contains slot.type = true) ∧ t.types.size ≤ t'.types.size)
      fun _ => before.GrowsTo := by
  refine ends_refuseMainName_bind h ?_
  rw [Step.ends_bind]
  refine (p.type.resolve_grows h).mono (fun id t₁ h₁ => ?_) fun _ _ h => h
  rw [Step.ends_bind, Step.ends_get]
  split
  · exact h₁.1
  · rw [Step.ends_bind]
    refine declareName_enters.mono (fun _ t₂ henter => ?_) fun _ _ h => h.2 ▸ h₁.1
    rw [Step.ends_pure, Tables.types_enter henter]
    exact ⟨h₁.1.addVariable hscope rfl h₁.2.1 henter, h₁.2⟩

/-- Declaring the parameters of a procedure in a new scope makes the tables grow, and the slots are
of types that exist. -/
lemma Parameter.declareAll_grows (parameters : List Parameter) (hscope : ¬before.HasScope scope)
    (h : before.GrowsTo t) : (parameters.mapM (Parameter.declare scope)).Ends t
      (fun slots t' => before.GrowsTo t' ∧
        (before.TypesExist → ∀ slot ∈ slots, t'.types.contains slot.type = true))
      fun _ => before.GrowsTo := by
  refine Step.ends_mapM (fun _ (slots : List Slot) t' => before.GrowsTo t' ∧
    (before.TypesExist → ∀ slot ∈ slots, t'.types.contains slot.type = true)) parameters
    ⟨h, fun _ _ hslot => absurd hslot List.not_mem_nil⟩ fun _ p _ slots _ t₁ h₁ => ?_
  refine (p.declare_grows hscope h₁.1).mono (fun slot t₂ h₂ => ⟨h₂.1, fun hexist => ?_⟩)
    fun _ _ h => h
  intro slot' hslot'
  rcases List.mem_append.mp hslot' with hslot' | hslot'
  · exact TypeTable.contains_mono h₂.2.2 (h₁.2 hexist slot' hslot')
  · rw [List.mem_singleton.mp hslot']
    exact h₂.2.1 hexist

/-- Declaring a local variable in a new scope makes the tables grow. -/
lemma LocalVar.declare_grows (v : LocalVar) (hscope : ¬before.HasScope scope)
    (h : before.GrowsTo t) : (v.declare scope).Ends t
      (fun _ t' => before.GrowsTo t' ∧ t.types.size ≤ t'.types.size) fun _ => before.GrowsTo := by
  refine ends_refuseMainName_bind h ?_
  rw [Step.ends_bind]
  refine (v.type.resolve_grows h).mono (fun id t₁ h₁ => ?_) fun _ _ h => h
  refine declareName_enters.mono (fun _ t₂ henter => ?_) fun _ _ h => h.2 ▸ h₁.1
  rw [Tables.types_enter henter]
  exact ⟨h₁.1.addVariable hscope rfl h₁.2.1 henter, h₁.2.2⟩

/-- Declaring a procedure makes the tables grow: its variables are entered into a scope that is
added for them, and its name into the global scope. -/
lemma Procedure.declare_grows (q : Procedure) : q.declare.Keeps before.GrowsTo := by
  intro t ht
  have hscope : ¬before.HasScope ⟨t.scopes.length⟩ := fun hold =>
    Nat.lt_irrefl _ (ht.hasScope hold)
  unfold declare
  rw [Step.ends_bind, Step.ends_get, Step.ends_bind, Step.ends_set, Step.ends_bind]
  refine (Parameter.declareAll_grows q.parameters hscope ht.newScope).mono (fun slots t₁ h₁ => ?_)
    fun _ _ h => h
  rw [Step.ends_bind]
  refine (Step.ends_forM (fun _ t₂ => before.GrowsTo t₂ ∧ t₁.types.size ≤ t₂.types.size) q.locals
    ⟨h₁.1, le_rfl⟩ fun _ v _ _ t₂ h₂ => (v.declare_grows hscope h₂.1).mono
      (fun _ _ h => ⟨h.1, h₂.2.trans h.2⟩) fun _ _ h => h).mono (fun _ t₂ h₂ => ?_) fun _ _ h => h
  refine declareName_enters.mono (fun _ t₃ henter => ?_) fun _ _ h => h.2 ▸ h₂.1
  refine h₂.1.addGlobal (fun hexist type htype => ?_) henter
  obtain ⟨slot, hslot, rfl⟩ := List.mem_map.mp htype
  exact TypeTable.contains_mono h₂.2 (h₁.2 hexist slot hslot)

/-- Declaring a program makes the tables grow, whether it succeeds or fails. -/
lemma Program.declare_grows (p : Program) : p.declare.Keeps before.GrowsTo :=
  (Step.keeps_forM fun d _ => d.declare_grows).bind fun _ =>
    Step.keeps_forM fun q _ => q.declare_grows

end

/-! ### The tables that programs start with -/

namespace Tables

variable {before t t' : Tables} {id : ScopeId} {n name : String} {entry e : Entry}

/-- The primitive types exist. -/
lemma contains_int (types : TypeTable) : types.contains .int = true :=
  decide_eq_true (Nat.lt_of_lt_of_le (by decide) (Nat.le_add_right _ _))

lemma contains_bool (types : TypeTable) : types.contains .bool = true :=
  decide_eq_true (Nat.lt_of_lt_of_le (by decide) (Nat.le_add_right _ _))

/-- Entering a name into the global scope makes tables grow. -/
lemma GrowsTo.enterGlobal (h : before.GrowsTo t)
    (hentry : ∀ type ∈ entry.types, t.types.contains type = true) :
    before.GrowsTo (t.enterGlobal name entry) := by
  unfold Tables.enterGlobal
  cases henter : t.enter .global name entry with
  | none => exact h
  | some t' => exact h.addGlobal (fun _ => hentry) henter

/-- Entering a procedure of the runtime library makes tables grow. -/
lemma GrowsTo.enterRuntime (h : before.GrowsTo t) (r : RuntimeProcedure) :
    before.GrowsTo (t.enterRuntime r) := by
  refine h.newScope.enterGlobal fun type htype => ?_
  obtain ⟨slot, hslot, rfl⟩ := List.mem_map.mp htype
  obtain ⟨_, -, rfl⟩ := List.mem_map.mp hslot
  exact contains_int _

/-- The predefined tables grow from the initial ones. -/
lemma predefined_grows : initial.GrowsTo predefined := by
  have hprimitive : initial.GrowsTo
      ((initial.enterGlobal "int" (.type .int)).enterGlobal "bool" (.type .bool)) := by
    refine (GrowsTo.refl.enterGlobal fun type htype => ?_).enterGlobal fun type htype => ?_
    · exact List.mem_singleton.mp htype ▸ contains_int _
    · exact List.mem_singleton.mp htype ▸ contains_bool _
  unfold predefined
  generalize runtimeProcedures = procedures
  generalize (initial.enterGlobal "int" (.type .int)).enterGlobal "bool" (.type .bool) = t at hprimitive
  induction procedures generalizing t with
  | nil => exact hprimitive
  | cons r rest ih => exact ih _ (hprimitive.enterRuntime r)

/-- The initial tables are rooted. -/
lemma initial_rooted : initial.Rooted := by
  refine ⟨by decide, fun id s parent hs hparent => ?_⟩
  obtain ⟨hlt, rfl⟩ := List.getElem?_eq_some_iff.mp hs
  simp [initial] at hparent

/-- The initial tables have no places. -/
lemma initial_unplaced : initial.Unplaced := by
  intro id s hid hs x hx
  obtain ⟨hlt, rfl⟩ := List.getElem?_eq_some_iff.mp hs
  simp [initial] at hx

/-- The initial tables speak of no types but the primitive ones. -/
lemma initial_typesExist : initial.TypesExist := by
  refine ⟨fun a ha => ?_, fun id s hs x hx => ?_⟩
  · simp [initial, TypeTable.toList] at ha
  · obtain ⟨hlt, rfl⟩ := List.getElem?_eq_some_iff.mp hs
    simp [initial] at hx

/-! ### What grown tables hold -/

/-- Tables that hold what other tables hold, and more behind it: new types, new symbols of the global
scope, and new scopes of variables inside the global one. -/
structure Extends (t t' : Tables) : Prop where
  types : t.types.toList <+: t'.types.toList
  old : ∀ id s, t.scope? id = some s → ∃ added,
    t'.scope? id = some { s with symbols := s.symbols ++ added } ∧ (id ≠ .global → added = [])
  new : ∀ id s, t'.scope? id = some s → ¬t.HasScope id →
    s.parent = some .global ∧ ∀ x ∈ s.symbols, ∃ slot, x.entry = .var slot

/-- Tables extend themselves. -/
lemma Extends.refl (t : Tables) : t.Extends t := by
  refine ⟨List.prefix_rfl, fun id s hs => ⟨[], ?_, fun _ => rfl⟩, fun id s hs hnone => ?_⟩
  · rw [hs, List.append_nil]
  · exact absurd (hasScope_of_scope? hs) hnone

/-- One more scope inside the global one. -/
lemma Extends.newScope (h : before.Extends t) : before.Extends (t.newScope .global).2 := by
  refine ⟨h.types, fun id s hs => ?_, fun id s hs hnone => ?_⟩
  · obtain ⟨added, hadded, hinner⟩ := h.old id s hs
    exact ⟨added, scope?_newScope_of_some hadded, hinner⟩
  · rw [scope?_newScope] at hs
    split at hs
    · cases hs
      exact ⟨rfl, fun x hx => absurd hx List.not_mem_nil⟩
    · exact h.new id s hs hnone

/-- One more array type. -/
lemma Extends.addArray (h : before.Extends t) {base id : TypeId} {length : Nat} {types : TypeTable}
    (hadd : t.types.addArray base length = some (id, types)) : before.Extends { t with types } := by
  refine ⟨h.types.trans ?_, h.old, h.new⟩
  rw [(TypeTable.toList_of_addArray hadd).2]
  exact List.prefix_append _ _

/-- One more name, in the global scope if it is in an old scope, and for a variable if it is in a new
one. -/
lemma Extends.enter (h : before.Extends t) (henter : t.enter id name entry = some t')
    (hold : before.HasScope id → id = .global)
    (hnew : ¬before.HasScope id → ∃ slot, entry = .var slot) : before.Extends t' := by
  obtain ⟨-, rfl⟩ := enter_eq_some.mp henter
  refine ⟨h.types, fun j s hs => ?_, fun j s hs hnone => ?_⟩
  · obtain ⟨added, hadded, hinner⟩ := h.old j s hs
    rw [scope?_add hadded]
    split
    · rename_i hj
      refine ⟨added ++ [⟨name, entry⟩], ?_, fun hglobal => ?_⟩
      · rw [Scope.add, List.append_assoc]
      · exact absurd (hj.trans (hold (hj ▸ hasScope_of_scope? hs))) hglobal
    · exact ⟨added, rfl, hinner⟩
  · rw [scope?_modifyScope] at hs
    split at hs
    · rename_i hj
      obtain ⟨s', hs', rfl⟩ := Option.map_eq_some_iff.mp hs
      obtain ⟨hparent, hsymbols⟩ := h.new j s' hs' hnone
      refine ⟨hparent, fun x hx => ?_⟩
      rcases List.mem_append.mp hx with hx | hx
      · exact hsymbols x hx
      · rw [List.mem_singleton.mp hx]
        exact hnew (hj ▸ hnone)
    · exact h.new j s hs hnone

/-- Tables that grow extend those they grow from. -/
lemma GrowsTo.extends (h : before.GrowsTo t) (hglobal : before.HasScope .global) :
    before.Extends t := by
  induction h with
  | refl => exact .refl before
  | newScope _ ih => exact ih.newScope
  | addArray _ _ hadd ih => exact ih.addArray hadd
  | addVariable _ hscope _ _ henter ih =>
    exact ih.enter henter (fun hold => absurd hold hscope) fun _ => ⟨_, rfl⟩
  | addGlobal _ _ henter ih =>
    exact ih.enter henter (fun _ => rfl) fun hnone => absurd hglobal hnone

namespace Extends
variable (h : t.Extends t')
include h

/-- A scope binds the names that it bound. -/
lemma binding?_of_some (he : t.binding? id n = some e) : t'.binding? id n = some e := by
  by_cases hid : t.HasScope id
  · obtain ⟨added, hadded, -⟩ := h.old id _ hid.scope?_eq
    unfold binding? Scope.find? at he ⊢
    rw [scope_of_scope? hadded]
    obtain ⟨x, hx, rfl⟩ := Option.map_eq_some_iff.mp he
    rw [List.find?_append, hx]
    rfl
  · rw [binding?_of_not_hasScope hid] at he
    cases he

/-- A scope inside another one binds nothing else. -/
lemma binding?_of_ne (hid : t.HasScope id) (hne : id ≠ .global) :
    t'.binding? id n = t.binding? id n := by
  obtain ⟨added, hadded, hinner⟩ := h.old id _ hid.scope?_eq
  rw [hinner hne, List.append_nil] at hadded
  unfold binding?
  rw [scope_of_scope? hadded]

/-- What a name means in a scope that was there is what it meant, if it meant anything. -/
lemma lookup_of_some (hrooted : t.Rooted) (hrooted' : t'.Rooted) (he : t.lookup id n = some e) :
    t'.lookup id n = some e := by
  by_cases hid : t.HasScope id
  · obtain ⟨path, hpath⟩ := hrooted.exists_path hid
    have hpath' : t'.Path id path := by
      refine hpath.congr fun j s hs => ?_
      obtain ⟨added, hadded, -⟩ := h.old j s hs
      exact ⟨_, hadded, rfl⟩
    rw [hrooted.lookup_eq hpath] at he
    rw [hrooted'.lookup_eq hpath']
    clear hpath' hid
    induction hpath with
    | outermost =>
      rw [List.findSome?_singleton] at he ⊢
      exact h.binding?_of_some he
    | @inside id parent s path hs hparent _ ih =>
      have hne : id ≠ .global := by
        rintro rfl
        rw [← scope_of_scope? hs, hrooted.parent_global] at hparent
        cases hparent
      rw [List.findSome?_cons] at he ⊢
      rw [h.binding?_of_ne (hasScope_of_scope? hs) hne]
      cases hbound : t.binding? id n with
      | some x =>
        rw [hbound] at he
        exact he
      | none =>
        rw [hbound] at he
        exact ih he
  · have hnone : t.scope? id = none := List.getElem?_eq_none (Nat.le_of_not_lt hid)
    unfold lookup chain chainUpTo at he
    rw [hnone] at he
    cases he

end Extends

end Tables

/-- Declaring a program in any tables that are rooted and whose types exist only appends, whether it
succeeds or stops at a fault.  The types that were there come first; a scope that was there keeps its
parent and its symbols, and gets new ones at its end if it is the global one; a scope that is new is
inside the global one and binds variables only.  So a name that meant something still means the same.
The tables remain rooted, and their types exist. -/
theorem Program.declare_appends (p : Program) (t : Tables) (hrooted : t.Rooted)
    (hexist : t.TypesExist) :
    t.Extends (p.declare.runOn t).2 ∧
    (∀ id n e, t.lookup id n = some e → (p.declare.runOn t).2.lookup id n = some e) ∧
    (p.declare.runOn t).2.Rooted ∧ (p.declare.runOn t).2.TypesExist := by
  have hgrows : t.GrowsTo (p.declare.runOn t).2 := p.declare_grows.outcome .refl
  have hextends := hgrows.extends hrooted.global
  have hrooted' := hgrows.rooted hrooted
  exact ⟨hextends, fun id n e he => hextends.lookup_of_some hrooted hrooted' he, hrooted',
    hgrows.typesExist hexist⟩

/-- The tables of the program with rows. -/
def rowTables : Tables := (rows.declare.runOn .predefined).2

/-- A program that uses the type of rows, and whose procedure has the name of one with rows. -/
def clearedTwice : Program where
  definitions := [
    .procedure
      { mark := .atLine 1
        name := "clear"
        parameters := [⟨.atLine 1, "r", .named (.atLine 1) "row", true⟩]
        locals := [⟨.atLine 2, "pair", .array (.atLine 2) 2 (.named (.atLine 2) "row")⟩]
        body := [] }]

/-- A procedure that cannot be declared a second time leaves its scope and the type of its variable
behind, at the ends of what was there. -/
theorem Program.declare_appends_clearedTwice : rowTables.Rooted ∧ rowTables.TypesExist ∧
    (clearedTwice.declare.runOn rowTables).1.isOk = false ∧
    (clearedTwice.declare.runOn rowTables).2.scopes.length = rowTables.scopes.length + 1 ∧
    rowTables.Extends (clearedTwice.declare.runOn rowTables).2 := by
  have hgrows : Tables.initial.GrowsTo rowTables :=
    rows.declare_grows.outcome Tables.predefined_grows
  have hrooted := hgrows.rooted Tables.initial_rooted
  have hexist := hgrows.typesExist Tables.initial_typesExist
  obtain ⟨hextends, -⟩ := declare_appends clearedTwice rowTables hrooted hexist
  exact ⟨hrooted, hexist, by decide +kernel, by decide +kernel, hextends⟩

end TreeCompiler
