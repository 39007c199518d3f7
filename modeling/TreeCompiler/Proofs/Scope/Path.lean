import Mathlib.Tactic.ByContra
import TreeCompiler.Proofs.Scope.Binding

/-!
# The scopes around a scope

The scopes around a scope are found by going from parent to parent (`Tables.Path`).  If every scope is
older than the scopes inside it (`Tables.Rooted`), this ends, and a name means what the first scope on
the way binds it to (`Tables.Rooted.lookup_eq`).  Entering a name in a scope changes what that name
means in the places from which the search reaches the scope (`Tables.SearchReaches`), and nothing else
(`Tables.Rooted.lookup_enter` and `Tables.Rooted.lookup_enter_of_not`).
-/

namespace TreeCompiler.Tables

variable {t t' : Tables} {id j : ScopeId} {path : List ScopeId} {n name : String} {entry : Entry}

/-! ### Paths -/

/-- The way from a scope outward, from parent to parent, until a scope has none. -/
inductive Path (t : Tables) : ScopeId → List ScopeId → Prop where
  | outermost {id : ScopeId} {s : Scope} : t.scope? id = some s → s.parent = none → Path t id [id]
  | inside {id parent : ScopeId} {s : Scope} {path : List ScopeId} : t.scope? id = some s →
      s.parent = some parent → Path t parent path → Path t id (id :: path)

/-- There is one way outward. -/
lemma Path.unique {path' : List ScopeId} (h : t.Path id path) (h' : t.Path id path') :
    path = path' := by
  induction h generalizing path' with
  | outermost hs hparent =>
    cases h' with
    | outermost => rfl
    | inside hs' hparent' =>
      cases hs.symm.trans hs'
      cases hparent.symm.trans hparent'
  | inside hs hparent _ ih =>
    cases h' with
    | outermost hs' hparent' =>
      cases hs.symm.trans hs'
      cases hparent.symm.trans hparent'
    | inside hs' hparent' hrest =>
      cases hs.symm.trans hs'
      cases hparent.symm.trans hparent'
      rw [ih hrest]

/-- The way outward depends on the parents only. -/
lemma Path.congr (h : t.Path id path)
    (hparents : ∀ j s, t.scope? j = some s → ∃ s', t'.scope? j = some s' ∧ s'.parent = s.parent) :
    t'.Path id path := by
  induction h with
  | outermost hs hparent =>
    obtain ⟨s', hs', heq⟩ := hparents _ _ hs
    exact .outermost hs' (heq.trans hparent)
  | inside hs hparent _ ih =>
    obtain ⟨s', hs', heq⟩ := hparents _ _ hs
    exact .inside hs' (heq.trans hparent) ih

/-- A search for a name that starts in a scope reaches another one: it is on the way outward, and no
scope before it binds the name. -/
def SearchReaches (t : Tables) (name : String) (start target : ScopeId) : Prop :=
  ∃ before after, t.Path start (before ++ target :: after) ∧ ∀ j ∈ before, t.binding? j name = none

/-! ### Rooted tables -/

/-- There is a global scope, and every scope is inside an older one, if it is inside one at all. -/
structure Rooted (t : Tables) : Prop where
  global : t.HasScope .global
  older : ∀ id s parent, t.scope? id = some s → s.parent = some parent → parent.index < id.index

namespace Rooted

/-- Nothing is around the global scope. -/
lemma parent_global (h : t.Rooted) : (t.scope .global).parent = none := by
  cases hparent : (t.scope .global).parent with
  | none => rfl
  | some parent => exact absurd (h.older _ _ _ h.global.scope?_eq hparent) (Nat.not_lt_zero _)

/-- The scope around a scope exists. -/
lemma hasScope_parent (h : t.Rooted) {s : Scope} {parent : ScopeId} (hs : t.scope? id = some s)
    (hparent : s.parent = some parent) : t.HasScope parent :=
  Nat.lt_trans (h.older id s parent hs hparent) (hasScope_of_scope? hs)

/-- The way outward ends. -/
lemma exists_path (h : t.Rooted) (hid : t.HasScope id) : ∃ path, t.Path id path := by
  induction hk : id.index using Nat.strongRecOn generalizing id with
  | ind k ih =>
    have hs := hid.scope?_eq
    cases hparent : (t.scope id).parent with
    | none => exact ⟨_, .outermost hs hparent⟩
    | some parent =>
      have hlt := h.older id _ parent hs hparent
      obtain ⟨path, hpath⟩ := ih parent.index (hk ▸ hlt) (h.hasScope_parent hs hparent) rfl
      exact ⟨_, .inside hs hparent hpath⟩

/-- The scopes around a place are those on the way outward. -/
lemma chain_eq (h : t.Rooted) (hpath : t.Path id path) : t.chain id = path.map t.scope := by
  suffices hupTo : ∀ k, id.index < k → t.chainUpTo k id = path.map t.scope from
    hupTo _ (Nat.lt_succ_self _)
  induction hpath with
  | @outermost id s hs hparent =>
    intro k hk
    obtain ⟨k, rfl⟩ := Nat.exists_eq_succ_of_ne_zero (Nat.ne_of_gt (Nat.zero_lt_of_lt hk))
    unfold chainUpTo
    simp only [hs, hparent, List.map_cons, List.map_nil, scope_of_scope? hs]
  | @inside id parent s path hs hparent _ ih =>
    intro k hk
    obtain ⟨k, rfl⟩ := Nat.exists_eq_succ_of_ne_zero (Nat.ne_of_gt (Nat.zero_lt_of_lt hk))
    have hlt := h.older id s parent hs hparent
    unfold chainUpTo
    simp only [hs, hparent, List.map_cons, scope_of_scope? hs]
    rw [ih k (by omega)]

/-- A name means what the first scope on the way outward that binds it does. -/
lemma lookup_eq (h : t.Rooted) (hpath : t.Path id path) :
    t.lookup id n = path.findSome? (t.binding? · n) := by
  unfold lookup
  rw [h.chain_eq hpath, List.findSome?_map]
  rfl

end Rooted

/-! ### Entering names -/

/-- Entering a name changes no parent. -/
lemma exists_scope?_of_enter (h : t.enter id name entry = some t') (j : ScopeId) (s : Scope)
    (hs : t.scope? j = some s) : ∃ s', t'.scope? j = some s' ∧ s'.parent = s.parent := by
  obtain ⟨-, rfl⟩ := enter_eq_some.mp h
  rw [scope?_modifyScope]
  split
  · exact ⟨_, congrArg (Option.map _) hs, rfl⟩
  · exact ⟨s, hs, rfl⟩

/-- Scopes that exist exist after a name is entered, and no others. -/
lemma hasScope_enter (h : t.enter id name entry = some t') : t'.HasScope j ↔ t.HasScope j := by
  obtain ⟨-, rfl⟩ := enter_eq_some.mp h
  exact hasScope_modifyScope

/-- Entering a name leaves the tables rooted. -/
lemma Rooted.enter (h : t.Rooted) (henter : t.enter id name entry = some t') : t'.Rooted := by
  refine ⟨(hasScope_enter henter).mpr h.global, fun j s' parent hs' hparent => ?_⟩
  have hj : t.HasScope j := (hasScope_enter henter).mp (hasScope_of_scope? hs')
  obtain ⟨s, hs, heq⟩ := exists_scope?_of_enter henter j _ hj.scope?_eq
  cases hs'.symm.trans hs
  exact h.older j _ parent hj.scope?_eq (heq ▸ hparent)

/-- A new scope inside one that exists leaves the tables rooted. -/
lemma Rooted.newScope (h : t.Rooted) (hid : t.HasScope id) : (t.newScope id).2.Rooted := by
  refine ⟨hasScope_of_scope? (scope?_newScope_of_some h.global.scope?_eq), ?_⟩
  intro j s parent hs hparent
  rw [scope?_newScope] at hs
  split at hs
  · rename_i hj
    cases hs
    cases hparent
    rw [hj]
    exact hid
  · exact h.older j s parent hs hparent

/-- A search that reaches the scope in which a name was entered finds the new entry. -/
lemma Rooted.lookup_enter (h : t.Rooted) (hid : t.HasScope id)
    (henter : t.enter id name entry = some t') (hreaches : t.SearchReaches name j id) :
    t'.lookup j name = some entry := by
  obtain ⟨before, after, hpath, hbefore⟩ := hreaches
  rw [(h.enter henter).lookup_eq (hpath.congr (exists_scope?_of_enter henter))]
  obtain ⟨hnew, rfl⟩ := enter_eq_some.mp henter
  have hbinding : (t.modifyScope id (·.add name entry)).binding? id name = some entry :=
    (hid.binding?_add_eq_some hnew).mpr (.inr ⟨rfl, rfl⟩)
  clear hpath
  induction before with
  | nil => rw [List.nil_append, List.findSome?_cons, hbinding]
  | cons k before ih =>
    rw [List.cons_append, List.findSome?_cons]
    by_cases hk : k = id
    · rw [hk, hbinding]
    · rw [hid.binding?_add, if_neg hk, hbefore k List.mem_cons_self]
      exact ih fun l hl => hbefore l (List.mem_cons_of_mem _ hl)

/-- Any other search finds what it found before. -/
lemma Rooted.lookup_enter_of_not (h : t.Rooted) (hid : t.HasScope id)
    (henter : t.enter id name entry = some t') (hj : t.HasScope j)
    (hnot : ¬(n = name ∧ t.SearchReaches name j id)) : t'.lookup j n = t.lookup j n := by
  obtain ⟨path, hpath⟩ := h.exists_path hj
  rw [(h.enter henter).lookup_eq (hpath.congr (exists_scope?_of_enter henter)), h.lookup_eq hpath]
  obtain ⟨-, rfl⟩ := enter_eq_some.mp henter
  -- where the scope stands on the way, either the name is another one or a scope before binds it
  have hhidden : ∀ before after, path = before ++ id :: after →
      n ≠ name ∨ ∃ k ∈ before, t.binding? k n ≠ none := by
    intro before after heq
    by_cases hn : n = name
    · subst hn
      by_contra hneither
      refine hnot ⟨rfl, before, after, heq ▸ hpath, fun k hk => ?_⟩
      by_contra hbound
      exact hneither (.inr ⟨k, hk, hbound⟩)
    · exact .inl hn
  clear hpath hnot
  induction path with
  | nil => rfl
  | cons k rest ih =>
    have hsame : (t.modifyScope id (·.add name entry)).binding? k n = t.binding? k n := by
      rw [hid.binding?_add]
      split
      · rename_i hk
        have hne : n ≠ name := by
          rcases hhidden [] rest (hk ▸ rfl) with hne | ⟨l, hl, -⟩
          · exact hne
          · cases hl
        rw [if_neg (Ne.symm hne), Option.or_none]
      · rfl
    rw [List.findSome?_cons, List.findSome?_cons, hsame]
    cases hk : t.binding? k n with
    | some e => rfl
    | none =>
      refine ih fun before after heq => ?_
      rcases hhidden (k :: before) after (heq ▸ rfl) with hne | ⟨l, hl, hbound⟩
      · exact .inl hne
      · rcases List.mem_cons.mp hl with rfl | hl
        · exact absurd hk hbound
        · exact .inr ⟨l, hl, hbound⟩

end TreeCompiler.Tables
