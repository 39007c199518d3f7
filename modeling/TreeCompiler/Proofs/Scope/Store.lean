import Mathlib.Logic.Relation
import TreeCompiler.Proofs.Frame.Independence
import TreeCompiler.Proofs.Scope.Growth

/-!
# The store of scopes

Tables change by five operations (`Tables.Operation`): a scope or an array type is added, a name is
entered, a program is declared, or its frames are laid out.  All but the first may fail, and what they
did before stays.  Whatever the operations and their order, the scopes form a tree below the global
scope, in which every scope is older than those inside it and binds no name twice
(`Tables.Reachable.wellScoped`).  This is what the laws of lookups rest on (`Tables.store_laws`).
-/

namespace TreeCompiler.Tables

variable {t t' before : Tables} {id scope : ScopeId} {path : List ScopeId} {name : String}
  {entry : Entry}

/-! ### Operations -/

/-- What can be done to tables. -/
inductive Operation where
  | newScope (parent : ScopeId)
  | enter (line : UInt32) (scope : ScopeId) (name : String) (entry : Entry)
  | newArray (base : TypeId) (length : UInt32)
  | declare (p : Program)
  | allocate (p : Program)

/-- The tables that an operation leaves, whether it succeeds or fails. -/
def perform (t : Tables) : Operation → Tables
  | .newScope parent => (t.newScope parent).2
  | .enter line scope name entry => ((declareName line scope name entry).runOn t).2
  | .newArray base length => { t with types := (t.types.request base length).2 }
  | .declare p => (p.declare.runOn t).2
  | .allocate p => (p.allocate.runOn t).2

/-- A new scope can only be put inside one that exists; nothing is asked of the other operations. -/
def Allows (t : Tables) : Operation → Prop
  | .newScope parent => t.HasScope parent
  | _ => True

instance (t : Tables) (op : Operation) : Decidable (t.Allows op) :=
  match op with
  | .newScope parent => inferInstanceAs (Decidable (t.HasScope parent))
  | .enter .. | .newArray .. | .declare _ | .allocate _ => .isTrue trivial

/-- One operation leads from tables to tables. -/
def Performs (t t' : Tables) : Prop := ∃ op, t.Allows op ∧ t' = t.perform op

/-- Operations lead to the tables, from the empty ones or from those that programs start with. -/
def Reachable (t : Tables) : Prop :=
  Relation.ReflTransGen Performs initial t ∨ Relation.ReflTransGen Performs predefined t

/-- One more operation can be asked for. -/
lemma Reachable.perform (h : t.Reachable) (op : Operation) (hop : t.Allows op) :
    (t.perform op).Reachable :=
  h.imp (·.tail ⟨op, hop, rfl⟩) (·.tail ⟨op, hop, rfl⟩)

/-! ### Trees of scopes -/

/-- The scopes form a tree below the global one, in which parents are older, and each of them binds
its names once. -/
structure WellScoped (t : Tables) : Prop extends Rooted t where
  enclosed : ∀ id s, t.scope? id = some s → id ≠ .global → s.parent ≠ none
  nodup : ∀ id s, t.scope? id = some s → s.names.Nodup

/-- The initial tables have one scope, which is empty. -/
lemma initial_wellScoped : initial.WellScoped := by
  refine ⟨initial_rooted, fun id s hs hne => ?_, fun id s hs => ?_⟩
  · obtain ⟨hlt, -⟩ := List.getElem?_eq_some_iff.mp hs
    exact absurd (congrArg ScopeId.mk (Nat.lt_one_iff.mp hlt)) hne
  · obtain ⟨hlt, rfl⟩ := List.getElem?_eq_some_iff.mp hs
    simp [initial, Scope.names]

namespace WellScoped

/-- A new scope is a leaf of the tree. -/
lemma newScope (h : t.WellScoped) (hid : t.HasScope id) : (t.newScope id).2.WellScoped := by
  refine ⟨h.toRooted.newScope hid, fun j s hs hne => ?_, fun j s hs => ?_⟩
  · rw [scope?_newScope] at hs
    split at hs
    · cases hs
      exact Option.some_ne_none id
    · exact h.enclosed j s hs hne
  · rw [scope?_newScope] at hs
    split at hs
    · cases hs
      exact List.nodup_nil
    · exact h.nodup j s hs

/-- A name is only entered where it is new. -/
lemma enter (h : t.WellScoped) (henter : t.enter id name entry = some t') : t'.WellScoped := by
  have hrooted := h.toRooted.enter henter
  obtain ⟨hnew, rfl⟩ := enter_eq_some.mp henter
  refine ⟨hrooted, fun j s' hs' hne => ?_, fun j s' hs' => ?_⟩
  · rw [scope?_modifyScope] at hs'
    split at hs'
    · obtain ⟨s, hs, rfl⟩ := Option.map_eq_some_iff.mp hs'
      exact h.enclosed j s hs hne
    · exact h.enclosed j s' hs' hne
  · rw [scope?_modifyScope] at hs'
    split at hs'
    · rename_i hj
      obtain ⟨s, hs, rfl⟩ := Option.map_eq_some_iff.mp hs'
      have hfree : name ∉ s.names := by
        rw [← Scope.find?_eq_none_iff, ← scope_of_scope? hs, hj]
        exact hnew
      rw [Scope.names_add]
      exact (h.nodup j s hs).append (List.nodup_singleton name) (List.disjoint_singleton.mpr hfree)
    · exact h.nodup j s' hs'

/-- The types do not matter. -/
lemma withTypes (h : t.WellScoped) (types : TypeTable) : ({ t with types } : Tables).WellScoped :=
  ⟨⟨h.global, h.older⟩, h.enclosed, h.nodup⟩

/-- Declarations keep the tree. -/
lemma grows (hgrows : before.GrowsTo t) (h : before.WellScoped) : t.WellScoped := by
  induction hgrows with
  | refl => exact h
  | newScope _ ih => exact ih.newScope ih.global
  | addArray _ _ _ ih => exact ih.withTypes _
  | addVariable _ _ _ _ henter ih => exact ih.enter henter
  | addGlobal _ _ henter ih => exact ih.enter henter

/-- Where things lie does not matter. -/
lemma of_erase (herase : t'.erase = t.erase) (h : t.WellScoped) : t'.WellScoped := by
  have hscope : ∀ id s', t'.scope? id = some s' →
      ∃ s, t.scope? id = some s ∧ s.parent = s'.parent ∧ s.names = s'.names := by
    intro id s' hs'
    obtain ⟨s, hs, hsame⟩ := scope?_of_erase herase.symm hs'
    have hparent := congrArg Scope.parent hsame
    refine ⟨s, hs, hparent, ?_⟩
    rw [← scope_of_scope? hs, ← scope_of_scope? hs', names_of_erase herase]
  refine ⟨⟨?_, fun id s' parent hs' hparent => ?_⟩, fun id s' hs' hne => ?_, fun id s' hs' => ?_⟩
  · obtain ⟨s', hs', -⟩ := scope?_of_erase herase h.global.scope?_eq
    exact hasScope_of_scope? hs'
  · obtain ⟨s, hs, heq, -⟩ := hscope id s' hs'
    exact h.older id s parent hs (heq.trans hparent)
  · obtain ⟨s, hs, heq, -⟩ := hscope id s' hs'
    exact heq ▸ h.enclosed id s hs hne
  · obtain ⟨s, hs, -, heq⟩ := hscope id s' hs'
    exact heq ▸ h.nodup id s hs

/-- Every operation keeps the tree, whether it succeeds or fails. -/
lemma perform (h : t.WellScoped) {op : Operation} (hop : t.Allows op) :
    (t.perform op).WellScoped := by
  cases op with
  | newScope parent => exact h.newScope hop
  | enter line scope name entry =>
    have hkeeps : (declareName line scope name entry).Keeps WellScoped := fun t ht =>
      declareName_enters.mono (fun _ _ henter => ht.enter henter) fun _ _ hrefused => hrefused.2 ▸ ht
    exact hkeeps.outcome h
  | newArray base length => exact h.withTypes _
  | declare p => exact grows (p.declare_grows.outcome .refl) h
  | allocate p =>
    have herase : (p.allocate.runOn t).2.erase = t.erase := (p.allocate_keeps_erase t).outcome rfl
    exact of_erase herase h

/-- The way outward ends at the global scope. -/
lemma getLast?_path (h : t.WellScoped) (hpath : t.Path id path) : path.getLast? = some .global := by
  induction hpath with
  | @outermost id s hs hparent =>
    have hglobal : id = .global := by
      by_contra hne
      exact h.enclosed id s hs hne hparent
    rw [hglobal, List.getLast?_singleton]
  | inside _ _ _ ih => rw [List.getLast?_cons, ih, Option.getD_some]

end WellScoped

/-- The scopes still form a tree after a sequence of operations. -/
lemma WellScoped.performs (h : before.WellScoped) (hsteps : Relation.ReflTransGen Performs before t) :
    t.WellScoped := by
  induction hsteps with
  | refl => exact h
  | tail _ hstep ih =>
    obtain ⟨op, hop, rfl⟩ := hstep
    exact ih.perform hop

/-- The scopes of all tables that operations lead to form a tree. -/
lemma Reachable.wellScoped (h : t.Reachable) : t.WellScoped :=
  h.elim initial_wellScoped.performs (initial_wellScoped.grows predefined_grows).performs

/-! ### The laws -/

/-- Whatever was done to the tables, whether it succeeded or failed: No scope binds a name twice, and
every scope but the global one is inside an older one.  So there is one way outward from every scope,
it ends at the global scope, and a name means what the first scope on the way that binds it does.
Entering a name fails exactly if the scope binds it already, and then changes nothing.  If it succeeds,
the name means the new entry wherever the search for it reaches the scope, and nothing else changes
its meaning. -/
theorem store_laws (t : Tables) (ht : t.Reachable) :
    (∀ id s, t.scope? id = some s → s.names.Nodup ∧ (id = .global → s.parent = none) ∧
      (id ≠ .global → ∃ parent, s.parent = some parent ∧ parent.index < id.index)) ∧
    (∀ start, t.HasScope start → ∃ path, t.Path start path ∧
      (∀ path', t.Path start path' → path' = path) ∧ path.getLast? = some .global ∧
      ∀ n, t.lookup start n = path.findSome? (t.binding? · n)) ∧
    ∀ line scope name entry, t.HasScope scope →
      (t.binding? scope name ≠ none → t.enter scope name entry = none ∧
        (declareName line scope name entry).runOn t =
          (.error (.atLine line (.alreadyDeclared name)), t)) ∧
      (t.binding? scope name = none → ∃ t', t.enter scope name entry = some t' ∧
        (declareName line scope name entry).runOn t = (.ok (), t') ∧
        ∀ start n, t.HasScope start →
          (n = name ∧ t.SearchReaches name start scope → t'.lookup start n = some entry) ∧
          (¬(n = name ∧ t.SearchReaches name start scope) →
            t'.lookup start n = t.lookup start n)) := by
  have hwell := ht.wellScoped
  have hrooted := hwell.toRooted
  refine ⟨fun id s hs => ⟨hwell.nodup id s hs, fun hid => ?_, fun hne => ?_⟩, fun start hstart => ?_,
    fun line scope name entry hscope => ⟨fun hbound => ?_, fun hnew => ?_⟩⟩
  · subst hid
    rw [← scope_of_scope? hs, hrooted.parent_global]
  · obtain ⟨parent, hparent⟩ := Option.ne_none_iff_exists'.mp (hwell.enclosed id s hs hne)
    exact ⟨parent, hparent, hrooted.older id s parent hs hparent⟩
  · obtain ⟨path, hpath⟩ := hrooted.exists_path hstart
    exact ⟨path, hpath, fun path' hpath' => hpath'.unique hpath, hwell.getLast?_path hpath,
      fun n => hrooted.lookup_eq hpath⟩
  · have henter : t.enter scope name entry = none := by
      rw [Option.eq_none_iff_forall_ne_some]
      intro t' henter
      exact hbound (enter_eq_some.mp henter).1
    refine ⟨henter, ?_⟩
    rw [runOn_declareName, henter]
  · obtain ⟨t', henter⟩ : ∃ t', t.enter scope name entry = some t' :=
      ⟨_, enter_eq_some.mpr ⟨hnew, rfl⟩⟩
    refine ⟨t', henter, ?_, fun start n hstart => ⟨?_, ?_⟩⟩
    · rw [runOn_declareName, henter]
    · rintro ⟨rfl, hreaches⟩
      exact hrooted.lookup_enter hscope henter hreaches
    · exact hrooted.lookup_enter_of_not hscope henter hstart

/-- Three scopes inside each other and inside the global one, of which the second and the global one
bind the same name, and what a program leaves behind that can neither be declared nor laid out. -/
def nestedTables : Tables :=
  [.newScope .global, .newScope ⟨1⟩, .newScope ⟨2⟩, .enter 1 .global "x" (.type .int),
    .enter 2 ⟨2⟩ "x" (.type .bool), .declare clearedTwice,
    .allocate clearedTwice].foldl perform initial

/-- A name that is entered between two scopes that bind it is found from where it is entered, and not
from where the inner scope hides it. -/
theorem store_laws_nested : nestedTables.Reachable ∧
    nestedTables.enter ⟨2⟩ "x" (.type ⟨2⟩) = none ∧
    ∃ t', nestedTables.enter ⟨1⟩ "x" (.type ⟨2⟩) = some t' ∧
      t'.lookup ⟨1⟩ "x" = some (.type ⟨2⟩) ∧ t'.lookup ⟨3⟩ "x" = nestedTables.lookup ⟨3⟩ "x" := by
  have hnested : (((initial.perform (.newScope .global)).perform (.newScope ⟨1⟩)).perform
      (.newScope ⟨2⟩)).Reachable :=
    ((Reachable.perform (.inl .refl) _ (by decide)).perform _ (by decide)).perform _ (by decide)
  have hreachable : nestedTables.Reachable :=
    (((hnested.perform (.enter 1 .global "x" (.type .int)) trivial).perform
      (.enter 2 ⟨2⟩ "x" (.type .bool)) trivial).perform (.declare clearedTwice) trivial).perform
      (.allocate clearedTwice) trivial
  have hfirst : nestedTables.Path ⟨1⟩ [⟨1⟩, .global] :=
    .inside (HasScope.scope?_eq (by decide)) (by decide)
      (.outermost (HasScope.scope?_eq (by decide)) (by decide))
  have hthird : nestedTables.Path ⟨3⟩ [⟨3⟩, ⟨2⟩, ⟨1⟩, .global] :=
    .inside (HasScope.scope?_eq (by decide)) (by decide)
      (.inside (HasScope.scope?_eq (by decide)) (by decide) hfirst)
  have hhidden : ¬nestedTables.SearchReaches "x" ⟨3⟩ ⟨1⟩ := by
    rintro ⟨before, after, hpath, hbefore⟩
    rcases before with _ | ⟨i, _ | ⟨j, before⟩⟩
    · cases hpath.unique hthird
    · cases hpath.unique hthird
    · obtain ⟨-, hj⟩ := List.cons.inj (hpath.unique hthird)
      obtain ⟨rfl, -⟩ := List.cons.inj hj
      exact absurd (hbefore ⟨2⟩ (List.mem_cons_of_mem _ List.mem_cons_self)) (by decide)
  obtain ⟨-, -, henter⟩ := store_laws nestedTables hreachable
  have hbound := ((henter 3 ⟨2⟩ "x" (.type ⟨2⟩) (by decide)).1 (by decide)).1
  obtain ⟨t', hentered, -, hlookup⟩ := (henter 3 ⟨1⟩ "x" (.type ⟨2⟩) (by decide)).2 (by decide)
  refine ⟨hreachable, hbound, t', hentered, ?_, ?_⟩
  · exact (hlookup ⟨1⟩ "x" (by decide)).1 ⟨rfl, [], [.global], hfirst, by decide⟩
  · exact (hlookup ⟨3⟩ "x" (by decide)).2 fun h => hhidden h.2

end TreeCompiler.Tables
