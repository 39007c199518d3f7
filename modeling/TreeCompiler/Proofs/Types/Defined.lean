import TreeCompiler.Proofs.Types.Node

/-!
# What the names of types stand for

The shapes and the origins of the names of types are both given by going through the type
definitions in order, each of which may use the names above it (`valuesFrom`).  Where every
definition is built on a name above it and no name is defined twice, a defined name has the value
that its definition has among all the names (`lookup_valuesFrom`), so that in a program that can
be declared a name may be followed to its definition without a look at what stands above
(`Program.Declarable.lookup_typeOrigins`).
-/

namespace TreeCompiler

/-! ### What definitions give their names -/

/-- Adds the names of type definitions with their values, each of which may use those above it. -/
def valuesFrom {α : Type} (value : List (String × α) → TypeDef → Option α)
    (names : List (String × α)) : List TypeDef → List (String × α)
  | [] => names
  | d :: rest =>
    match value names d with
    | some v => valuesFrom value ((d.name, v) :: names) rest
    | none => valuesFrom value names rest

/-- The shapes of names are values that definitions give them. -/
lemma typeNamesFrom_eq_valuesFrom (names : List (String × ValueShape)) (types : List TypeDef) :
    typeNamesFrom names types = valuesFrom (fun names d => d.type.shape? names) names types := by
  induction types generalizing names with
  | nil => rfl
  | cons d rest ih =>
    rw [typeNamesFrom, valuesFrom]
    cases d.type.shape? names with
    | none => exact ih names
    | some s => exact ih _

/-- The origins of names are values that definitions give them. -/
lemma typeOriginsFrom_eq_valuesFrom (origins : List (String × Origin)) (types : List TypeDef) :
    typeOriginsFrom origins types =
      valuesFrom (fun origins d => d.type.origin? origins (.type d.name)) origins types := by
  induction types generalizing origins with
  | nil => rfl
  | cons d rest ih =>
    rw [typeOriginsFrom, valuesFrom]
    cases d.type.origin? origins (.type d.name) with
    | none => exact ih origins
    | some o => exact ih _

/-- The shape of a type is built from the shape of the name that it is built on. -/
lemma TypeExpr.exists_shape?_eq (e : TypeExpr) :
    ∃ f, ∀ names, e.shape? names = (names.lookup e.root).map f := by
  induction e with
  | named mark name => exact ⟨id, fun names => (Option.map_id_apply).symm⟩
  | array mark length base ih =>
    obtain ⟨f, hf⟩ := ih
    refine ⟨fun s => .array length.toNat (f s), fun names => ?_⟩
    rw [shape?, hf, Option.map_map]
    rfl

/-- The origin of a type is built from the origin of the name that it is built on. -/
lemma TypeExpr.exists_origin?_eq (e : TypeExpr) (site : Site) :
    ∃ f, ∀ origins, e.origin? origins site = (origins.lookup e.root).map f := by
  induction e with
  | named mark name => exact ⟨id, fun origins => (Option.map_id_apply).symm⟩
  | array mark length base ih =>
    obtain ⟨f, hf⟩ := ih
    refine ⟨fun o => .array ⟨site, base.depth⟩ (f o), fun origins => ?_⟩
    rw [origin?, hf, Option.map_map]
    rfl

section
variable {α : Type} {value : List (String × α) → TypeDef → Option α}
  {names : List (String × α)} {types : List TypeDef}

/-- The values that one more definition leads to. -/
lemma valuesFrom_concat {d : TypeDef} {v : α}
    (h : value (valuesFrom value names types) d = some v) :
    valuesFrom value names (types ++ [d]) = (d.name, v) :: valuesFrom value names types := by
  induction types generalizing names with
  | nil =>
    simp only [valuesFrom, List.nil_append] at h ⊢
    rw [h]
  | cons d' rest ih =>
    rw [valuesFrom] at h
    rw [List.cons_append, valuesFrom, valuesFrom]
    split at h <;> exact ih h

/-- Definitions in order, each built on a name above it, leave the names that were there as they
are, and give each of their own names the value that its definition has among all of them. -/
lemma lookup_valuesFrom
    (hvalue : ∀ d, ∃ f, ∀ names, value names d = (names.lookup d.type.root).map f)
    (hnodup : (names.map Prod.fst ++ types.map TypeDef.name).Nodup)
    (hroots : InOrder (fun before d =>
      d.type.root ∈ names.map Prod.fst ++ before.map TypeDef.name) types) :
    (∀ n ∈ names.map Prod.fst, (valuesFrom value names types).lookup n = names.lookup n) ∧
    ∀ d ∈ types, ∃ v, (valuesFrom value names types).lookup d.name = some v ∧
      value (valuesFrom value names types) d = some v := by
  induction types using List.reverseRecOn with
  | nil => exact ⟨fun _ _ => rfl, fun d hd => absurd hd List.not_mem_nil⟩
  | append_singleton types d ih =>
    obtain ⟨hbefore, hroot⟩ := inOrder_concat.mp hroots
    rw [List.map_append, List.map_singleton, ← List.append_assoc, List.nodup_append] at hnodup
    obtain ⟨hnodup, -, hfresh⟩ := hnodup
    obtain ⟨hkept, hdefined⟩ := ih hnodup hbefore
    obtain ⟨v, hv⟩ : ∃ v, (valuesFrom value names types).lookup d.type.root = some v := by
      rcases List.mem_append.mp hroot with hroot | hroot
      · obtain ⟨x, hx, heq⟩ := List.mem_map.mp hroot
        rw [hkept _ hroot, ← heq]
        exact Option.isSome_iff_exists.mp (List.lookup_isSome_iff.mpr ⟨x, hx, beq_self_eq_true _⟩)
      · obtain ⟨d', hd', heq⟩ := List.mem_map.mp hroot
        obtain ⟨v, hv, -⟩ := hdefined d' hd'
        exact ⟨v, heq ▸ hv⟩
    obtain ⟨f, hf⟩ := hvalue d
    have hd : value (valuesFrom value names types) d = some (f v) := by
      rw [hf, hv]
      rfl
    rw [valuesFrom_concat hd]
    -- The names above the last definition keep their values, and so do the types built on them.
    have hold : ∀ n ∈ names.map Prod.fst ++ types.map TypeDef.name,
        ((d.name, f v) :: valuesFrom value names types).lookup n =
          (valuesFrom value names types).lookup n := by
      intro n hn
      rw [List.lookup_cons, beq_eq_false_iff_ne.mpr (hfresh n hn d.name List.mem_cons_self)]
    have hsame : ∀ d', d'.type.root ∈ names.map Prod.fst ++ types.map TypeDef.name →
        value ((d.name, f v) :: valuesFrom value names types) d' =
          value (valuesFrom value names types) d' := by
      intro d' hd'
      obtain ⟨f', hf'⟩ := hvalue d'
      rw [hf', hf', hold _ hd']
    refine ⟨fun n hn => (hold n (List.mem_append_left _ hn)).trans (hkept n hn), fun d' hd' => ?_⟩
    rcases List.mem_append.mp hd' with hd' | hd'
    · have hroot' : d'.type.root ∈ names.map Prod.fst ++ types.map TypeDef.name := by
        obtain ⟨before, after, rfl⟩ := List.append_of_mem hd'
        rw [List.map_append, ← List.append_assoc]
        exact List.mem_append_left _ (hbefore before d' after rfl)
      rw [hsame d' hroot', hold _ (List.mem_append_right _ (List.mem_map_of_mem hd'))]
      exact hdefined d' hd'
    · obtain rfl := List.mem_singleton.mp hd'
      exact ⟨f v, List.lookup_cons_self, (hsame d' hroot).trans hd⟩

end

/-! ### Names in a program that can be declared -/

namespace Program.Declarable
variable {p : Program} (h : p.Declarable)
include h

/-- The names that types can be built on are different. -/
lemma nodup_rootNames : (rootNames p.typeDefs).Nodup := by
  have hnodup := (declarable_iff.mp h).2.1
  unfold globalNames predefinedNames at hnodup
  have hsub : (rootNames p.typeDefs).Sublist (primitiveNames.map Prod.fst ++
      runtimeProcedures.map RuntimeProcedure.name ++ p.typeDefs.map TypeDef.name ++
      p.procedures.map Procedure.name) :=
    ((List.sublist_append_left _ _).append (List.Sublist.refl _)).trans
      (List.sublist_append_left _ _)
  exact hnodup.sublist hsub

/-- Every type definition is built on a primitive type or on a definition above it. -/
lemma roots_inOrder : InOrder (fun before d => d.type.root ∈ rootNames before) p.typeDefs := by
  intro before d after hl
  obtain ⟨s, hs, -⟩ := (h.types before d after hl).type
  exact TypeExpr.root_mem_rootNames hs

/-- A defined name has the shape of the type in its definition. -/
lemma lookup_typeNames {d : TypeDef} (hd : d ∈ p.typeDefs) :
    p.typeNames.lookup d.name = d.type.shape? p.typeNames := by
  unfold typeNames
  rw [typeNamesFrom_eq_valuesFrom]
  obtain ⟨s, hs, hvalue⟩ := (lookup_valuesFrom (fun d => d.type.exists_shape?_eq) h.nodup_rootNames
    h.roots_inOrder).2 d hd
  exact hs.trans hvalue.symm

/-- The primitive types keep their origins, and a defined name has the origin of the type in its
definition. -/
lemma lookup_typeOrigins : p.typeOrigins.lookup "int" = some .int ∧
    p.typeOrigins.lookup "bool" = some .bool ∧
    ∀ d ∈ p.typeDefs, p.typeOrigins.lookup d.name =
      d.type.origin? p.typeOrigins (.type d.name) := by
  have hnodup : (primitiveOrigins.map Prod.fst ++ p.typeDefs.map TypeDef.name).Nodup :=
    h.nodup_rootNames
  obtain ⟨hkept, hdefined⟩ := lookup_valuesFrom
    (fun d => d.type.exists_origin?_eq (.type d.name)) hnodup h.roots_inOrder
  rw [← typeOriginsFrom_eq_valuesFrom] at hkept hdefined
  refine ⟨hkept "int" (by decide), hkept "bool" (by decide), fun d hd => ?_⟩
  obtain ⟨o, ho, hvalue⟩ := hdefined d hd
  exact ho.trans hvalue.symm

/-- Every type that a program writes is built on one of the names that types can be built on. -/
lemma root_mem_rootNames {x : Site × TypeExpr} (hx : x ∈ p.writtenTypes) :
    x.2.root ∈ rootNames p.typeDefs := by
  rcases List.mem_append.mp hx with hx | hx
  · obtain ⟨d, hd, rfl⟩ := List.mem_map.mp hx
    obtain ⟨before, after, hl⟩ := List.append_of_mem hd
    have hroot := h.roots_inOrder before d after hl
    unfold rootNames at hroot ⊢
    rw [hl, List.map_append, ← List.append_assoc]
    exact List.mem_append_left _ hroot
  · obtain ⟨q, hq, hx⟩ := List.mem_flatMap.mp hx
    obtain ⟨d, hd, rfl⟩ := List.mem_map.mp hx
    obtain ⟨before, after, hl⟩ := List.append_of_mem hd
    obtain ⟨s, hs, -⟩ := (((declarable_iff.mp h).2.2 q hq).decls before d after hl).type
    exact TypeExpr.root_mem_rootNames hs

/-- Every type that a program writes reaches a node. -/
lemma exists_reaches {x : Site × TypeExpr} (hx : x ∈ p.writtenTypes) :
    ∃ node, x.2.Reaches p.typeDefs x.1 node :=
  TypeExpr.exists_reaches h.types (h.root_mem_rootNames hx)

/-- The elements of an array that a program writes reach a node. -/
lemma exists_reaches_base {a : ArrayNode} (ha : a ∈ p.arrayNodes) :
    ∃ node, a.base.Reaches p.typeDefs a.site node := by
  obtain ⟨x, hx, ha⟩ := List.mem_flatMap.mp ha
  refine TypeExpr.exists_reaches h.types ?_
  rw [TypeExpr.root_of_mem_arrays ha]
  exact h.root_mem_rootNames hx

end Program.Declarable

end TreeCompiler
