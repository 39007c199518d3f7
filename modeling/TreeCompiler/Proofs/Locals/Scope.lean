import TreeCompiler.Proofs.Declaration

/-!
# A scope with other names

The tables in which one scope binds other names to the same entries (`Tables.renameIn`).  What the
scope binds is found under the new names, and nothing is different in the other scopes.
-/

namespace TreeCompiler

/-! ### One scope -/

/-- A symbol with another name. -/
def Symbol.rename (ρ : String → String) (x : Symbol) : Symbol := { x with name := ρ x.name }

/-- A scope that binds other names to the same entries. -/
def Scope.rename (ρ : String → String) (s : Scope) : Scope :=
  { s with symbols := s.symbols.map (Symbol.rename ρ) }

namespace Scope

variable {ρ : String → String} {s : Scope} {n : String}

/-- The names that a scope with other names binds. -/
@[simp] lemma names_rename : (s.rename ρ).names = s.names.map ρ := by
  unfold names rename
  rw [List.map_map, List.map_map]
  rfl

/-- An entry is found under the new name, if no other name has become the same. -/
lemma find?_rename (h : ∀ m ∈ s.names, ρ m = ρ n → m = n) : (s.rename ρ).find? (ρ n) = s.find? n := by
  unfold find? rename
  unfold names at h
  dsimp only
  generalize s.symbols = symbols at h
  induction symbols with
  | nil => rfl
  | cons x rest ih =>
    rw [List.map_cons, List.forall_mem_cons] at h
    rw [List.map_cons]
    by_cases hx : x.name = n
    · subst hx
      have hsame : ((x.rename ρ).name == ρ x.name) = true := beq_self_eq_true _
      rw [List.find?_cons, List.find?_cons, beq_self_eq_true, hsame]
      rfl
    · have hne : (x.name == n) = false := beq_eq_false_iff_ne.mpr hx
      have hne' : ((x.rename ρ).name == ρ n) = false :=
        beq_eq_false_iff_ne.mpr fun heq => hx (h.1 heq)
      rw [List.find?_cons, List.find?_cons, hne, hne']
      exact ih h.2

/-- Nothing is found under a name that no name has become. -/
lemma find?_rename_eq_none (h : ∀ m ∈ s.names, ρ m ≠ n) : (s.rename ρ).find? n = none := by
  rw [find?_eq_none_iff, names_rename, List.mem_map]
  rintro ⟨m, hm, heq⟩
  exact h m hm heq

/-- A name that is added to a scope has another name afterwards. -/
lemma rename_add {entry : Entry} : (s.add n entry).rename ρ = (s.rename ρ).add (ρ n) entry := by
  unfold add rename
  rw [List.map_append]
  rfl

/-- Changing what a name is bound to is changing it under the new name, if no other name has
become the same. -/
lemma rename_modify (h : ∀ m ∈ s.names, ρ m = ρ n → m = n) {f : Entry → Entry} :
    (s.modify n f).rename ρ = (s.rename ρ).modify (ρ n) f := by
  unfold modify rename
  unfold names at h
  dsimp only
  congr 1
  generalize s.symbols = symbols at h
  induction symbols with
  | nil => rfl
  | cons x rest ih =>
    rw [List.map_cons, List.forall_mem_cons] at h
    rw [List.map_cons, modifySymbol, modifySymbol]
    by_cases hx : x.name = n
    · subst hx
      have hsame : ((x.rename ρ).name == ρ x.name) = true := beq_self_eq_true _
      rw [hsame, beq_self_eq_true]
      rfl
    · have hne : (x.name == n) = false := beq_eq_false_iff_ne.mpr hx
      have hne' : ((x.rename ρ).name == ρ n) = false :=
        beq_eq_false_iff_ne.mpr fun heq => hx (h.1 heq)
      rw [hne, hne']
      exact congrArg (x.rename ρ :: ·) (ih h.2)

end Scope

/-! ### Tables -/

/-- The tables in which one scope binds other names to the same entries. -/
def Tables.renameIn (own : ScopeId) (ρ : String → String) (t : Tables) : Tables :=
  t.modifyScope own (Scope.rename ρ)

/-- How names are written in a scope, if those of one scope are others. -/
def writtenIn (own : ScopeId) (ρ : String → String) (scope : ScopeId) : String → String :=
  if scope = own then ρ else id

namespace Tables

variable {own id : ScopeId} {ρ : String → String} {t : Tables} {n : String}

@[simp] lemma types_renameIn : (t.renameIn own ρ).types = t.types := rfl

/-- Other names neither add a scope nor take one away. -/
@[simp] lemma length_scopes_renameIn : (t.renameIn own ρ).scopes.length = t.scopes.length :=
  length_scopes_modifyScope

/-- The other scopes keep their names. -/
lemma scope?_renameIn_of_ne (h : id ≠ own) : (t.renameIn own ρ).scope? id = t.scope? id := by
  unfold renameIn
  rw [scope?_modifyScope, if_neg h]

/-- The scope with other names. -/
lemma scope?_renameIn_self : (t.renameIn own ρ).scope? own = (t.scope? own).map (Scope.rename ρ) := by
  unfold renameIn
  rw [scope?_modifyScope, if_pos rfl]

/-- The scope with other names, also if it does not exist. -/
lemma scope_renameIn_self : (t.renameIn own ρ).scope own = (t.scope own).rename ρ := by
  unfold scope
  rw [scope?_renameIn_self]
  cases t.scope? own <;> rfl

/-- The other scopes bind what they did. -/
lemma binding?_renameIn_of_ne (h : id ≠ own) :
    (t.renameIn own ρ).binding? id n = t.binding? id n := by
  unfold binding? scope
  rw [scope?_renameIn_of_ne h]

/-- What the scope has bound is bound to the new name, if no other name has become the same. -/
lemma binding?_renameIn_self (h : ∀ m ∈ (t.scope own).names, ρ m = ρ n → m = n) :
    (t.renameIn own ρ).binding? own (ρ n) = t.binding? own n := by
  unfold binding?
  rw [scope_renameIn_self, Scope.find?_rename h]

/-- The scope binds no name that no name has become. -/
lemma binding?_renameIn_eq_none (h : ∀ m ∈ (t.scope own).names, ρ m ≠ n) :
    (t.renameIn own ρ).binding? own n = none := by
  unfold binding?
  rw [scope_renameIn_self, Scope.find?_rename_eq_none h]

/-- Other names do not change what the global scope binds. -/
lemma procedure?_renameIn (h : own ≠ .global) : (t.renameIn own ρ).procedure? n = t.procedure? n := by
  unfold procedure? scope
  rw [scope?_renameIn_of_ne h.symm]

/-- Tables are the same if their types and their scopes are. -/
lemma eq_of_scope? {t' : Tables} (htypes : t'.types = t.types)
    (hscopes : ∀ id, t'.scope? id = t.scope? id) : t' = t := by
  have hlist : t'.scopes = t.scopes := List.ext_getElem? fun k => hscopes ⟨k⟩
  cases t
  cases t'
  cases htypes
  cases hlist
  rfl

/-- Changing another scope and giving a scope other names can be done in any order. -/
lemma renameIn_modifyScope_of_ne (h : id ≠ own) {f : Scope → Scope} :
    (t.modifyScope id f).renameIn own ρ = (t.renameIn own ρ).modifyScope id f := by
  refine eq_of_scope? rfl fun k => ?_
  unfold renameIn
  simp only [scope?_modifyScope]
  by_cases hk : k = own
  · rw [if_pos hk, if_neg (hk ▸ h.symm), if_neg (hk ▸ h.symm), if_pos hk]
  · rw [if_neg hk, if_neg hk]

/-- A scope can be changed before it is given other names or afterwards. -/
lemma renameIn_modifyScope_self {f f' : Scope → Scope}
    (h : (f (t.scope own)).rename ρ = f' ((t.scope own).rename ρ)) :
    (t.modifyScope own f).renameIn own ρ = (t.renameIn own ρ).modifyScope own f' := by
  refine eq_of_scope? rfl fun k => ?_
  unfold renameIn
  simp only [scope?_modifyScope]
  by_cases hk : k = own
  · subst hk
    simp only [if_pos]
    cases hs : t.scope? k with
    | none => rfl
    | some s =>
      rw [scope_of_scope? hs] at h
      exact congrArg some h
  · simp only [if_neg hk]

/-- A scope without names has no other names. -/
lemma renameIn_eq_self (h : (t.scope own).names = []) : t.renameIn own ρ = t := by
  refine eq_of_scope? rfl fun k => ?_
  by_cases hk : k = own
  · subst hk
    rw [scope?_renameIn_self]
    cases hs : t.scope? k with
    | none => rfl
    | some s =>
      rw [scope_of_scope? hs, Scope.names, List.map_eq_nil_iff] at h
      rw [Option.map_some, Scope.rename, h]
      cases s
      cases h
      rfl
  · exact scope?_renameIn_of_ne hk

end Tables

end TreeCompiler
