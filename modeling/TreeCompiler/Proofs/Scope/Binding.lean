import Mathlib.Tactic.Lemma
import TreeCompiler.Scope

/-!
# Bindings of scopes

What a scope itself binds a name to, before and after each operation on the tables.  A lookup is then
a lookup among the bindings of one or two scopes: the scope of a procedure is enclosed by the global
scope, which nothing encloses.
-/

namespace TreeCompiler

namespace Scope

variable {s s' : Scope} {name n : String} {entry : Entry} {f : Entry → Entry}

/-- The scope with one more symbol at its end. -/
def add (s : Scope) (name : String) (entry : Entry) : Scope :=
  { s with symbols := s.symbols ++ [⟨name, entry⟩] }

/-- The names that a scope binds, in order. -/
def names (s : Scope) : List String := s.symbols.map Symbol.name

/-- A name is unbound if no symbol has it. -/
lemma find?_eq_none_iff : s.find? name = none ↔ name ∉ s.names := by
  unfold find? names
  rw [Option.map_eq_none_iff, List.find?_eq_none, List.mem_map]
  constructor
  · rintro h ⟨x, hx, rfl⟩
    exact h x hx (beq_self_eq_true _)
  · intro h x hx hname
    exact h ⟨x, hx, beq_iff_eq.mp hname⟩

/-- Names enter a scope at its end, if they are new. -/
lemma enter_eq_some : s.enter name entry = some s' ↔ s.find? name = none ∧ s' = s.add name entry := by
  unfold enter
  cases hfind : s.find? name with
  | none =>
    simp only [Option.isSome_none, Bool.false_eq_true, if_false, Option.some.injEq, true_and]
    exact eq_comm
  | some e => simp

/-- What is found in a list of symbols with one more at its end. -/
lemma find?_add : (s.add name entry).find? n =
    (s.find? n).or (if name = n then some entry else none) := by
  unfold find? add
  rw [List.find?_append]
  cases s.symbols.find? (·.name == n) with
  | some x => rfl
  | none =>
    by_cases hn : name = n
    · subst hn
      simp
    · simp [hn]

/-- What is found after a change of a symbol. -/
lemma find?_modify : (s.modify name f).find? n =
    if n = name then (s.find? n).map f else s.find? n := by
  unfold find? modify
  dsimp only
  induction s.symbols with
  | nil =>
    rw [modifySymbol]
    split <;> rfl
  | cons x rest ih =>
    rw [modifySymbol]
    by_cases hx : x.name = name
    · subst hx
      rw [if_pos (beq_self_eq_true _)]
      by_cases hn : n = x.name
      · subst hn
        simp
      · have hne : (x.name == n) = false := beq_eq_false_iff_ne.mpr (Ne.symm hn)
        simp [hne, hn]
    · rw [if_neg (by simpa using hx)]
      by_cases hn : n = x.name
      · subst hn
        simp [hx]
      · have hne : (x.name == n) = false := beq_eq_false_iff_ne.mpr (Ne.symm hn)
        simpa [List.find?_cons, hne] using ih

/-- A change of a symbol leaves the names as they are. -/
@[simp] lemma names_modify : (s.modify name f).names = s.names := by
  unfold names modify
  dsimp only
  induction s.symbols with
  | nil => rfl
  | cons x rest ih =>
    rw [modifySymbol]
    split
    · rfl
    · simp only [List.map_cons, ih]

/-- The name of a new symbol comes last. -/
@[simp] lemma names_add : (s.add name entry).names = s.names ++ [name] := by
  simp [names, add]

/-- If no name is bound twice, every symbol is what its name is bound to. -/
lemma find?_of_mem (h : s.names.Nodup) {x : Symbol} (hx : x ∈ s.symbols) :
    s.find? x.name = some x.entry := by
  obtain ⟨parent, symbols⟩ := s
  unfold find? names at *
  dsimp only at *
  induction symbols with
  | nil => cases hx
  | cons y rest ih =>
    rw [List.map_cons, List.nodup_cons] at h
    rcases List.mem_cons.mp hx with rfl | hx
    · simp
    · have hne : y.name ≠ x.name := fun heq => h.1 (heq ▸ List.mem_map_of_mem hx)
      rw [List.find?_cons, beq_eq_false_iff_ne.mpr hne]
      exact ih h.2 hx

/-- What is found is a symbol of the scope. -/
lemma mem_of_find? (h : s.find? n = some entry) : ⟨n, entry⟩ ∈ s.symbols := by
  obtain ⟨x, hx, rfl⟩ := Option.map_eq_some_iff.mp h
  have hname : x.name = n := beq_iff_eq.mp (List.find?_some (p := fun y : Symbol => y.name == n) hx)
  subst hname
  exact List.mem_of_find?_eq_some hx

end Scope

namespace Tables

variable {t t' : Tables} {id j : ScopeId} {name n : String} {entry : Entry} {f : Entry → Entry}

/-- What a scope itself binds a name to. -/
def binding? (t : Tables) (id : ScopeId) (name : String) : Option Entry := (t.scope id).find? name

/-- A handle of a scope that exists. -/
def HasScope (t : Tables) (id : ScopeId) : Prop := id.index < t.scopes.length

instance : Decidable (t.HasScope id) := inferInstanceAs (Decidable (_ < _))

/-- A scope that is found is the one under the handle. -/
lemma scope_of_scope? {s : Scope} (h : t.scope? id = some s) : t.scope id = s := by
  unfold scope
  rw [h]
  rfl

/-- A handle of a scope that exists finds it. -/
lemma HasScope.scope?_eq (h : t.HasScope id) : t.scope? id = some (t.scope id) := by
  have hsome : t.scope? id = some (t.scopes.get ⟨id.index, h⟩) :=
    List.getElem?_eq_getElem h
  rw [scope_of_scope? hsome, hsome]

/-- A scope that is found exists. -/
lemma hasScope_of_scope? {s : Scope} (h : t.scope? id = some s) : t.HasScope id :=
  (List.getElem?_eq_some_iff.mp h).1

/-- A scope that does not exist binds nothing. -/
lemma binding?_of_not_hasScope (h : ¬t.HasScope id) : t.binding? id name = none := by
  have hnone : t.scope? id = none := List.getElem?_eq_none (Nat.le_of_not_lt h)
  unfold binding? scope
  rw [hnone]
  rfl

/-- The scopes after a change of one of them. -/
lemma scope?_modifyScope {g : Scope → Scope} : (t.modifyScope id g).scope? j =
    if j = id then (t.scope? j).map g else t.scope? j := by
  unfold scope? modifyScope
  dsimp only
  by_cases h : j = id
  · subst h
    rw [List.getElem?_modify_eq, if_pos rfl]
    rfl
  · have hindex : id.index ≠ j.index := fun heq => h (by cases id; cases j; cases heq; rfl)
    rw [List.getElem?_modify_ne _ _ hindex, if_neg h]

/-- A change of a scope changes no types. -/
@[simp] lemma types_modifyScope {g : Scope → Scope} : (t.modifyScope id g).types = t.types := rfl

/-- A change of a scope adds no scope and takes none away. -/
@[simp] lemma length_scopes_modifyScope {g : Scope → Scope} :
    (t.modifyScope id g).scopes.length = t.scopes.length := List.length_modify ..

/-- A change of a scope leaves the scopes that exist. -/
@[simp] lemma hasScope_modifyScope {g : Scope → Scope} :
    (t.modifyScope id g).HasScope j ↔ t.HasScope j := by
  unfold HasScope
  rw [length_scopes_modifyScope]

/-- The scope that is changed. -/
lemma HasScope.scope_modifyScope_self (h : t.HasScope id) {g : Scope → Scope} :
    (t.modifyScope id g).scope id = g (t.scope id) := by
  apply scope_of_scope?
  rw [scope?_modifyScope, if_pos rfl, h.scope?_eq]
  rfl

/-- The scopes that are not changed. -/
lemma scope_modifyScope_of_ne (h : j ≠ id) {g : Scope → Scope} :
    (t.modifyScope id g).scope j = t.scope j := by
  unfold scope
  rw [scope?_modifyScope, if_neg h]

/-! ### Changing bindings -/

/-- A change of a binding changes no other scope. -/
lemma scope?_modifyEntry_of_ne (h : j ≠ id) : (t.modifyEntry id name f).scope? j = t.scope? j := by
  unfold modifyEntry
  rw [scope?_modifyScope, if_neg h]

@[simp] lemma types_modifyEntry : (t.modifyEntry id name f).types = t.types := rfl

@[simp] lemma hasScope_modifyEntry : (t.modifyEntry id name f).HasScope j ↔ t.HasScope j :=
  hasScope_modifyScope

/-- The bindings after a change of one of them. -/
lemma binding?_modifyEntry : (t.modifyEntry id name f).binding? j n =
    if j = id ∧ n = name then (t.binding? j n).map f else t.binding? j n := by
  by_cases hj : j = id
  · subst hj
    by_cases hs : t.HasScope j
    · unfold binding? modifyEntry
      rw [hs.scope_modifyScope_self, Scope.find?_modify]
      simp only [true_and]
    · rw [binding?_of_not_hasScope hs, binding?_of_not_hasScope (by simpa using hs)]
      split <;> rfl
  · unfold binding? modifyEntry
    rw [scope_modifyScope_of_ne hj, if_neg (fun h => hj h.1)]

/-- A change of a binding changes no scope around. -/
@[simp] lemma parent_modifyEntry :
    ((t.modifyEntry id name f).scope j).parent = (t.scope j).parent := by
  unfold scope modifyEntry
  rw [scope?_modifyScope]
  split
  · cases t.scope? j <;> rfl
  · rfl

/-- A change of a binding leaves the names as they are. -/
@[simp] lemma names_modifyEntry :
    ((t.modifyEntry id name f).scope j).names = (t.scope j).names := by
  unfold scope modifyEntry
  rw [scope?_modifyScope]
  split
  · cases t.scope? j with
    | none => rfl
    | some s => exact Scope.names_modify
  · rfl

/-! ### Entering names -/

/-- A name enters a scope at its end, if it is new there. -/
lemma enter_eq_some : t.enter id name entry = some t' ↔
    t.binding? id name = none ∧ t' = t.modifyScope id (·.add name entry) := by
  have hsame : t.modifyScope id (fun _ => (t.scope id).add name entry) =
      t.modifyScope id (·.add name entry) := by
    unfold modifyScope
    congr 1
    apply List.ext_getElem?
    intro i
    rw [List.getElem?_modify, List.getElem?_modify]
    by_cases hi : id.index = i
    · subst hi
      cases hs : t.scopes[id.index]? with
      | none => rfl
      | some s =>
        have hscope : t.scope id = s := scope_of_scope? hs
        simp [hscope]
    · simp [hi]
  unfold enter
  rw [Option.map_eq_some_iff]
  constructor
  · rintro ⟨s, hs, rfl⟩
    obtain ⟨hnone, rfl⟩ := Scope.enter_eq_some.mp hs
    exact ⟨hnone, hsame⟩
  · rintro ⟨hnone, rfl⟩
    exact ⟨_, Scope.enter_eq_some.mpr ⟨hnone, rfl⟩, hsame⟩

/-- The bindings after a name has been added to a scope. -/
lemma HasScope.binding?_add (h : t.HasScope id) :
    (t.modifyScope id (·.add name entry)).binding? j n =
      if j = id then (t.binding? j n).or (if name = n then some entry else none)
      else t.binding? j n := by
  by_cases hj : j = id
  · subst hj
    unfold binding?
    rw [h.scope_modifyScope_self, Scope.find?_add, if_pos rfl]
  · unfold binding?
    rw [scope_modifyScope_of_ne hj, if_neg hj]

/-- What a scope binds after a name that was new has been added to it. -/
lemma HasScope.binding?_add_eq_some (h : t.HasScope id) (hnew : t.binding? id name = none)
    {e : Entry} : (t.modifyScope id (·.add name entry)).binding? id n = some e ↔
      t.binding? id n = some e ∨ n = name ∧ e = entry := by
  rw [h.binding?_add, if_pos rfl]
  by_cases hn : n = name
  · subst hn
    rw [hnew, if_pos rfl]
    simp [eq_comm]
  · rw [if_neg (Ne.symm hn), Option.or_none]
    simp [hn]

/-- A scope that is there after a name has been added to a scope. -/
lemma scope?_add {s : Scope} (h : t.scope? j = some s) :
    (t.modifyScope id (·.add name entry)).scope? j =
      some (if j = id then s.add name entry else s) := by
  rw [scope?_modifyScope, h]
  split <;> rfl

/-- Adding a name to a scope changes no scope around. -/
@[simp] lemma parent_add :
    ((t.modifyScope id (·.add name entry)).scope j).parent = (t.scope j).parent := by
  unfold scope
  rw [scope?_modifyScope]
  split
  · cases t.scope? j <;> rfl
  · rfl

/-- A binding is kept when a name is added to a scope. -/
lemma binding?_add_of_some {e : Entry} (h : t.binding? j n = some e) :
    (t.modifyScope id (·.add name entry)).binding? j n = some e := by
  by_cases hid : t.HasScope id
  · rw [hid.binding?_add, h]
    split <;> rfl
  · have hj : j ≠ id := by
      rintro rfl
      rw [binding?_of_not_hasScope hid] at h
      cases h
    unfold binding?
    rw [scope_modifyScope_of_ne hj]
    exact h

/-! ### New scopes -/

/-- The scopes after one has been added. -/
lemma scope?_newScope {parent : ScopeId} : (t.newScope parent).2.scope? j =
    if j = ⟨t.scopes.length⟩ then some { parent := some parent } else t.scope? j := by
  unfold newScope scope?
  dsimp only
  split
  · rename_i hj
    subst hj
    rw [List.getElem?_concat_length]
  · rename_i hj
    have hne : j.index ≠ t.scopes.length := fun hindex => hj (by cases j; cases hindex; rfl)
    rcases Nat.lt_or_gt_of_ne hne with hlt | hgt
    · exact List.getElem?_append_left hlt
    · have hbehind : (t.scopes ++ [({ parent := some parent } : Scope)]).length ≤ j.index := by
        rw [List.length_append]
        exact hgt
      rw [List.getElem?_eq_none hbehind, List.getElem?_eq_none (Nat.le_of_lt hgt)]

/-- The scopes that were there are still there after one has been added. -/
lemma scope?_newScope_of_some {parent : ScopeId} {s : Scope} (h : t.scope? j = some s) :
    (t.newScope parent).2.scope? j = some s := by
  have hne : j ≠ ⟨t.scopes.length⟩ := by
    rintro rfl
    exact Nat.lt_irrefl _ (hasScope_of_scope? h)
  rw [scope?_newScope, if_neg hne, h]

/-! ### Looking up names -/

/-- In the global scope a name means what that scope binds it to. -/
lemma lookup_global : t.lookup .global n = t.binding? .global n := by
  unfold lookup chain binding? scope
  rw [ScopeId.global, chainUpTo]
  cases t.scope? ⟨0⟩ with
  | none => rfl
  | some s =>
    dsimp only
    cases s.parent <;> simp [chainUpTo]

/-- In a scope inside the global one a name means what that scope binds it to, or else what the
global scope binds it to. -/
lemma lookup_local {s : Scope} (hs : t.scope? id = some s) (hparent : s.parent = some .global)
    (hid : id ≠ .global) (hglobal : (t.scope .global).parent = none) :
    t.lookup id n = (t.binding? id n).or (t.binding? .global n) := by
  have hindex : ∃ k, id.index = k + 1 := by
    refine Nat.exists_eq_succ_of_ne_zero fun hzero => hid ?_
    cases id
    cases hzero
    rfl
  obtain ⟨k, hk⟩ := hindex
  unfold lookup chain
  rw [hk, chainUpTo, hs]
  dsimp only
  rw [hparent]
  dsimp only
  have hrest : (t.chainUpTo (k + 1) .global).findSome? (·.find? n) = t.binding? .global n := by
    rw [chainUpTo]
    cases hg : t.scope? .global with
    | none =>
      unfold binding? scope
      rw [hg]
      rfl
    | some g =>
      rw [scope_of_scope? hg] at hglobal
      dsimp only
      rw [hglobal]
      unfold binding?
      rw [scope_of_scope? hg]
      simp
  rw [List.findSome?_cons, hrest]
  unfold binding?
  rw [scope_of_scope? hs]
  cases s.find? n <;> rfl

/-- A procedure is found if the global scope binds its name to it. -/
lemma procedure?_eq_some {p : ProcedureEntry} :
    t.procedure? n = some p ↔ t.binding? .global n = some (.procedure p) := by
  unfold procedure? binding?
  constructor
  · intro h
    split at h
    · rename_i q hq
      cases h
      exact hq
    · cases h
  · intro h
    rw [h]

/-- A variable is found if the scope binds its name to it. -/
lemma findVar?_eq_some {slot : Slot} :
    (t.scope id).findVar? n = some slot ↔ t.binding? id n = some (.var slot) := by
  unfold Scope.findVar? binding?
  constructor
  · intro h
    split at h
    · rename_i s hs
      cases h
      exact hs
    · cases h
  · intro h
    rw [h]

end Tables

end TreeCompiler
