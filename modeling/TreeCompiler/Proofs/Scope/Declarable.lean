import Mathlib.Data.List.Induction
import TreeCompiler.Proofs.Pass
import TreeCompiler.Proofs.Scope.Declared

/-!
# Which programs can be declared

A program can be declared if its type definitions are admitted in order, each one by what stands
above it, and then its procedures, which may use every type (`Program.Declarable`).  The conditions
speak of the text of the program alone; `InOrder` has the theory of lists whose elements are admitted
one after the other, and says when steps that are done for each of them succeed.
-/

namespace TreeCompiler

/-! ### Lists whose elements are admitted in order -/

/-- Every element of a list is admitted after the elements before it. -/
def InOrder {α : Type} (P : List α → α → Prop) (l : List α) : Prop :=
  ∀ before a after, l = before ++ a :: after → P before a

section
variable {α β : Type} {P Q : List α → α → Prop} {l l' : List α} {a : α}

/-- In a list without elements all are admitted. -/
lemma inOrder_nil : InOrder P [] := by
  intro before a after h
  cases before <;> cases h

/-- The last element of a list is admitted after all the others. -/
lemma inOrder_concat : InOrder P (l ++ [a]) ↔ InOrder P l ∧ P l a := by
  constructor
  · intro h
    refine ⟨fun before b after hl => h before b (after ++ [a]) ?_, h l a [] rfl⟩
    rw [hl, List.append_assoc]
    rfl
  · rintro ⟨hl, ha⟩ before b after heq
    rcases List.eq_nil_or_concat after with rfl | ⟨rest, c, rfl⟩
    · obtain ⟨rfl, hb⟩ := List.append_inj' heq rfl
      cases hb
      exact ha
    · rw [List.concat_eq_append, ← List.cons_append, ← List.append_assoc] at heq
      exact hl before b rest (List.append_inj' heq rfl).1

/-- In two lists, one after the other, the elements of the second are admitted after the first. -/
lemma inOrder_append :
    InOrder P (l ++ l') ↔ InOrder P l ∧ InOrder (fun before => P (l ++ before)) l' := by
  induction l' using List.reverseRecOn with
  | nil => simp [inOrder_nil]
  | append_singleton l' a ih => rw [← List.append_assoc, inOrder_concat, inOrder_concat, ih, and_assoc]

/-- In a list of images the elements are admitted if the originals are. -/
lemma inOrder_map {f : β → α} {l : List β} :
    InOrder P (l.map f) ↔ InOrder (fun before b => P (before.map f) (f b)) l := by
  induction l using List.reverseRecOn with
  | nil => simp [inOrder_nil]
  | append_singleton l b ih =>
    rw [List.map_append, List.map_singleton, inOrder_concat, inOrder_concat, ih]

/-- Elements are admitted for two reasons. -/
lemma inOrder_and :
    InOrder (fun before a => P before a ∧ Q before a) l ↔ InOrder P l ∧ InOrder Q l :=
  ⟨fun h => ⟨fun before a after hl => (h before a after hl).1,
    fun before a after hl => (h before a after hl).2⟩,
    fun h before a after hl => ⟨h.1 before a after hl, h.2 before a after hl⟩⟩

/-- Elements that are admitted whatever stands before them. -/
lemma inOrder_forall {R : α → Prop} : InOrder (fun _ => R) l ↔ ∀ a ∈ l, R a := by
  constructor
  · intro h a ha
    obtain ⟨before, after, rfl⟩ := List.append_of_mem ha
    exact h before a after rfl
  · rintro h before a after rfl
    exact h a (List.mem_append_right _ List.mem_cons_self)

/-- The first element is admitted before all the others. -/
lemma inOrder_cons :
    InOrder P (a :: l) ↔ P [] a ∧ InOrder (fun before => P (a :: before)) l := by
  have hfirst : InOrder P [a] ↔ InOrder P [] ∧ P [] a :=
    inOrder_concat (l := [])
  rw [← List.singleton_append, inOrder_append, hfirst]
  exact and_congr_left fun _ => and_iff_right inOrder_nil

/-- Elements that correspond are admitted for reasons that correspond. -/
lemma inOrder_congr {R : α → β → Prop} {Q : List β → β → Prop} {l : List α} {l' : List β}
    (h : List.Forall₂ R l l')
    (hPQ : ∀ before before' a a', List.Forall₂ R before before' → R a a' →
      (P before a ↔ Q before' a')) : InOrder P l ↔ InOrder Q l' := by
  induction h generalizing P Q with
  | nil => exact ⟨fun _ => inOrder_nil, fun _ => inOrder_nil⟩
  | cons hfirst _ ih =>
    rw [inOrder_cons, inOrder_cons, hPQ [] [] _ _ .nil hfirst,
      ih fun before before' a a' hbefore ha => hPQ _ _ a a' (.cons hfirst hbefore) ha]

/-- Elements whose names are not taken, neither by others nor by those before them. -/
lemma inOrder_fresh {key : α → String} {taken : List String} (htaken : taken.Nodup) :
    InOrder (fun before a => key a ∉ taken ++ before.map key) l ↔
      (taken ++ l.map key).Nodup := by
  induction l using List.reverseRecOn with
  | nil => simpa [inOrder_nil] using htaken
  | append_singleton l a ih =>
    rw [inOrder_concat, ih, List.map_append, List.map_singleton, ← List.append_assoc, and_comm,
      ← List.nodup_cons, ← List.singleton_append, List.nodup_append_comm]

end

namespace Step

variable {ε α β : Type} {P : List α → α → Prop} {t : Tables}

/-- Steps that succeed for the elements that are admitted, and only for them, succeed for a list whose
elements are all admitted. -/
lemma ends_forM_inOrder {f : α → Step ε PUnit} (inv : List α → Tables → Prop) (l : List α)
    (start : inv [] t)
    (keep : ∀ before a after, l = before ++ a :: after → ∀ t', inv before t' →
      (f a).Ends t' (fun _ t'' => P before a ∧ inv (before ++ [a]) t'') fun _ _ => ¬P before a) :
    (l.forM f).Ends t (fun _ t' => InOrder P l ∧ inv l t') fun _ _ => ¬InOrder P l := by
  refine ends_forM (fun done t' => InOrder P done ∧ inv done t') l ⟨inOrder_nil, start⟩ ?_
  rintro before a after hl t' ⟨hbefore, hinv⟩
  refine (keep before a after hl t' hinv).mono (fun _ t'' h => ?_) fun _ _ h hall => ?_
  · exact ⟨inOrder_concat.mpr ⟨hbefore, h.1⟩, h.2⟩
  · exact h (hall before a after hl)

/-- Steps with results that succeed for the elements that are admitted, and only for them, succeed
for a list whose elements are all admitted. -/
lemma ends_mapM_inOrder {f : α → Step ε β} (inv : List α → List β → Tables → Prop) (l : List α)
    (start : inv [] [] t)
    (keep : ∀ before a after bs, l = before ++ a :: after → ∀ t', inv before bs t' →
      (f a).Ends t' (fun b t'' => P before a ∧ inv (before ++ [a]) (bs ++ [b]) t'')
        fun _ _ => ¬P before a) :
    (l.mapM f).Ends t (fun bs t' => InOrder P l ∧ inv l bs t') fun _ _ => ¬InOrder P l := by
  refine ends_mapM (fun done bs t' => InOrder P done ∧ inv done bs t') l ⟨inOrder_nil, start⟩ ?_
  rintro before a after bs hl t' ⟨hbefore, hinv⟩
  refine (keep before a after bs hl t' hinv).mono (fun _ t'' h => ?_) fun _ _ h hall => ?_
  · exact ⟨inOrder_concat.mpr ⟨hbefore, h.1⟩, h.2⟩
  · exact h (hall before a after hl)

end Step

/-! ### Names -/

/-- The names that every program can use. -/
def predefinedNames : List String :=
  primitiveNames.map Prod.fst ++ runtimeProcedures.map RuntimeProcedure.name

/-- The global names of some types and procedures, after those that every program can use. -/
def globalNames (types : List TypeDef) (procedures : List Procedure) : List String :=
  predefinedNames ++ types.map TypeDef.name ++ procedures.map Procedure.name

/-- The name that a written type is built on. -/
def TypeExpr.root : TypeExpr → String
  | .named _ name => name
  | .array _ _ base => base.root

/-! ### Definitions -/

/-- A written type makes sense where names stand for shapes: it is built on one of them, and the
lengths and sizes of its arrays are signed words. -/
def TypeExpr.Admitted (names : List (String × ValueShape)) (e : TypeExpr) : Prop :=
  ∃ s, e.shape? names = some s ∧ s.Fits

/-- A type may be defined below some others: its name is new, and not that of the main procedure, and
what it stands for is built on what is above it. -/
structure TypeDef.Admitted (before : List TypeDef) (d : TypeDef) : Prop where
  notMain : d.name ≠ mainName
  fresh : d.name ∉ globalNames before []
  type : d.type.Admitted (typeNamesFrom primitiveNames before)

/-- A variable may be declared below some others of its procedure: its name is new, and not that of
the main procedure, and none of the others hides the name that its type is built on. -/
structure VariableDecl.Admitted (names : List (String × ValueShape)) (before : List VariableDecl)
    (d : VariableDecl) : Prop where
  notMain : d.name ≠ mainName
  fresh : d.name ∉ before.map VariableDecl.name
  visible : d.type.root ∉ before.map VariableDecl.name
  type : d.type.Admitted names

/-- A parameter may be passed as it is declared: an array is passed by reference. -/
def Parameter.Passable (names : List (String × ValueShape)) (x : Parameter) : Prop :=
  x.isReference = false → ∀ s, x.type.shape? names = some s → s.isScalar = true

/-- A procedure may be declared where the names of types stand for shapes. -/
structure Procedure.Admitted (names : List (String × ValueShape)) (q : Procedure) : Prop where
  decls : InOrder (VariableDecl.Admitted names) q.decls
  passable : ∀ x ∈ q.parameters, x.Passable names

/-- A program can be declared: its types may be defined in order, and then its procedures, wherever
they stand among the types, may be declared in order under names that are new. -/
structure Program.Declarable (p : Program) : Prop where
  types : InOrder TypeDef.Admitted p.typeDefs
  procedures : InOrder (fun before q => q.name ∉ globalNames p.typeDefs before ∧
    q.Admitted p.typeNames) p.procedures

/-- A procedure is admitted if its parameters are, and then its local variables. -/
lemma Procedure.admitted_iff {names : List (String × ValueShape)} {q : Procedure} :
    q.Admitted names ↔
      InOrder (fun before (x : Parameter) =>
        x.decl.Admitted names (before.map Parameter.decl) ∧ x.Passable names) q.parameters ∧
      InOrder (fun before (v : LocalVar) => v.decl.Admitted names
        (q.parameters.map Parameter.decl ++ before.map LocalVar.decl)) q.locals := by
  have hdecls : InOrder (VariableDecl.Admitted names) q.decls ↔ _ ∧ _ := inOrder_append
  rw [inOrder_map, inOrder_map] at hdecls
  rw [inOrder_and, inOrder_forall]
  exact ⟨fun h => ⟨⟨(hdecls.mp h.decls).1, h.passable⟩, (hdecls.mp h.decls).2⟩,
    fun h => ⟨hdecls.mpr ⟨h.1.1, h.2⟩, h.1.2⟩⟩

/-- A program can be declared if its types may be defined in order, all its global names are
different, and each of its procedures may be declared. -/
lemma Program.declarable_iff {p : Program} : p.Declarable ↔
    InOrder TypeDef.Admitted p.typeDefs ∧ (globalNames p.typeDefs p.procedures).Nodup ∧
      ∀ q ∈ p.procedures, q.Admitted p.typeNames := by
  have hprocedures (htypes : InOrder TypeDef.Admitted p.typeDefs) :
      InOrder (fun before (q : Procedure) => q.name ∉ globalNames p.typeDefs before ∧
        q.Admitted p.typeNames) p.procedures ↔
      (globalNames p.typeDefs p.procedures).Nodup ∧ ∀ q ∈ p.procedures, q.Admitted p.typeNames := by
    have hfresh : InOrder (fun before (d : TypeDef) =>
        d.name ∉ predefinedNames ++ before.map TypeDef.name) p.typeDefs := by
      intro before d after hl
      have hnew := (htypes before d after hl).fresh
      unfold globalNames at hnew
      rwa [List.map_nil, List.append_nil] at hnew
    rw [inOrder_and, inOrder_forall]
    exact and_congr_left' (inOrder_fresh ((inOrder_fresh (by decide)).mp hfresh))
  exact ⟨fun h => ⟨h.types, (hprocedures h.types).mp h.procedures⟩,
    fun h => ⟨h.1, (hprocedures h.1).mpr h.2⟩⟩

end TreeCompiler
