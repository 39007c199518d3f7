import TreeCompiler.Proofs.Order.Origin

/-!
# Nodes that types come from

A written type reaches a primitive type, or an array that is written somewhere in the program, by
following names through the type definitions (`TypeExpr.Reaches`), and a place in a procedure
reaches one through the declaration of its variable (`Program.ReachesPlace`).  Where the
definitions are admitted in order every written type reaches one such node
(`TypeExpr.exists_reaches`), and no other (`TypeExpr.Reaches.unique`).  The nodes of a program are
listed in the order in which the declaration meets them (`Program.typeNodes`), and the handle of a
node is its place in that list (`Program.handle`).
-/

namespace TreeCompiler

/-! ### Nodes -/

deriving instance DecidableEq for TypeExpr

/-- An array that is written at a site. -/
structure ArrayNode where
  site : Site
  mark : Mark
  length : UInt32
  base : TypeExpr
deriving DecidableEq

namespace ArrayNode

/-- The type that is written at the node. -/
def written (a : ArrayNode) : TypeExpr := .array a.mark a.length a.base

/-- The tag of the node: its site, and how many arrays there are inside. -/
def tag (a : ArrayNode) : Tag := ⟨a.site, a.base.depth⟩

end ArrayNode

/-- What a written type stands for: a primitive type, or an array that is written somewhere. -/
inductive TypeNode where
  | int
  | bool
  | array (node : ArrayNode)
deriving DecidableEq

/-- The arrays of a type that is written at a site, the innermost one first. -/
def TypeExpr.arrays (site : Site) : TypeExpr → List ArrayNode
  | .named _ _ => []
  | .array mark length base => base.arrays site ++ [⟨site, mark, length, base⟩]

namespace Program

/-- The types that a program writes, with their sites: those of its type definitions, then those of
the parameters and local variables of its procedures. -/
def writtenTypes (p : Program) : List (Site × TypeExpr) :=
  p.typeDefs.map (fun d => (.type d.name, d.type)) ++
    p.procedures.flatMap fun q => q.decls.map fun d => (.variable q.name d.name, d.type)

/-- The arrays that a program writes, in the order in which the declaration meets them. -/
def arrayNodes (p : Program) : List ArrayNode := p.writtenTypes.flatMap fun x => x.2.arrays x.1

/-- The nodes that the types of a program come from, the primitive types first. -/
def typeNodes (p : Program) : List TypeNode := .int :: .bool :: p.arrayNodes.map .array

/-- The handle of a node: its place among the nodes of the program. -/
def handle (p : Program) (node : TypeNode) : TypeId := ⟨p.typeNodes.idxOf node⟩

end Program

/-- A type that is written at a site stands for a node: for the array that it is, or for what its
name leads to through the type definitions. -/
inductive TypeExpr.Reaches (types : List TypeDef) : Site → TypeExpr → TypeNode → Prop
  | int {site : Site} {mark : Mark} : Reaches types site (.named mark "int") .int
  | bool {site : Site} {mark : Mark} : Reaches types site (.named mark "bool") .bool
  | array {site : Site} {mark : Mark} {length : UInt32} {base : TypeExpr} :
      Reaches types site (.array mark length base) (.array ⟨site, mark, length, base⟩)
  | definition {site : Site} {mark : Mark} {d : TypeDef} {node : TypeNode} :
      d ∈ types → Reaches types (.type d.name) d.type node →
      Reaches types site (.named mark d.name) node

/-- A place in a procedure stands for a node: a name for that of the variable's declaration, and an
element of an array for that of the array's elements. -/
inductive Program.ReachesPlace (p : Program) (q : Procedure) : Variable → TypeNode → Prop
  | named {mark : Mark} {d : VariableDecl} {node : TypeNode} : d ∈ q.decls →
      d.type.Reaches p.typeDefs (.variable q.name d.name) node →
      ReachesPlace p q (.named mark d.name) node
  | element {mark : Mark} {array : Variable} {index : Expr} {a : ArrayNode} {node : TypeNode} :
      ReachesPlace p q array (.array a) → a.base.Reaches p.typeDefs a.site node →
      ReachesPlace p q (.element mark array index) node

/-! ### Following names -/

/-- The names that types can be built on below some type definitions. -/
def rootNames (types : List TypeDef) : List String :=
  primitiveNames.map Prod.fst ++ types.map TypeDef.name

section
variable {types : List TypeDef} {site : Site} {e : TypeExpr} {node node' : TypeNode}

/-- One more type definition adds its name to those that types can be built on. -/
lemma rootNames_concat {d : TypeDef} : rootNames (types ++ [d]) = rootNames types ++ [d.name] := by
  unfold rootNames
  rw [List.map_append, List.append_assoc]
  rfl

/-- A type that has a shape is built on a name that has one. -/
lemma TypeExpr.root_mem_rootNames {s : ValueShape}
    (h : e.shape? (typeNamesFrom primitiveNames types) = some s) : e.root ∈ rootNames types := by
  induction e generalizing s with
  | named mark name => exact mem_of_lookup_typeNamesFrom h
  | array mark length base ih =>
    obtain ⟨s', hs', -⟩ := Option.map_eq_some_iff.mp h
    exact ih hs'

/-- What is reached through some type definitions is reached through more of them as well. -/
lemma TypeExpr.Reaches.mono {types' : List TypeDef} (h : e.Reaches types site node)
    (hsub : types ⊆ types') : e.Reaches types' site node := by
  induction h with
  | int => exact .int
  | bool => exact .bool
  | array => exact .array
  | definition hd _ ih => exact .definition (hsub hd) ih

/-- Where type definitions are admitted in order, a type that is built on one of their names
reaches a node. -/
lemma TypeExpr.exists_reaches (hadmitted : InOrder TypeDef.Admitted types)
    (hroot : e.root ∈ rootNames types) : ∃ node, e.Reaches types site node := by
  induction types using List.reverseRecOn generalizing site e with
  | nil =>
    cases e with
    | array => exact ⟨_, .array⟩
    | named mark name =>
      have hname : name = "int" ∨ name = "bool" := by
        simpa [root, rootNames, primitiveNames] using hroot
      rcases hname with rfl | rfl
      · exact ⟨.int, .int⟩
      · exact ⟨.bool, .bool⟩
  | append_singleton types d ih =>
    obtain ⟨hbefore, hd⟩ := inOrder_concat.mp hadmitted
    have hsub : types ⊆ types ++ [d] := List.subset_append_left _ _
    cases e with
    | array => exact ⟨_, .array⟩
    | named mark name =>
      rw [rootNames_concat, root, List.mem_append, List.mem_singleton] at hroot
      rcases hroot with hroot | rfl
      · obtain ⟨node, hnode⟩ := ih hbefore (e := .named mark name) hroot
        exact ⟨node, hnode.mono hsub⟩
      · obtain ⟨s, hs, -⟩ := hd.type
        obtain ⟨node, hnode⟩ : ∃ node, d.type.Reaches types (.type d.name) node :=
          ih hbefore (root_mem_rootNames hs)
        exact ⟨node, .definition (List.mem_append_right _ List.mem_cons_self) (hnode.mono hsub)⟩

/-- Where the names of types are different, a written type reaches one node only. -/
lemma TypeExpr.Reaches.unique (hnodup : (rootNames types).Nodup) (h : e.Reaches types site node)
    (h' : e.Reaches types site node') : node = node' := by
  obtain ⟨-, hnames, hdisjoint⟩ := List.nodup_append.mp hnodup
  have hprimitive : ∀ d ∈ types, d.name ≠ "int" ∧ d.name ≠ "bool" := fun d hd =>
    ⟨fun heq => hdisjoint "int" (by decide) d.name (List.mem_map_of_mem hd) heq.symm,
      fun heq => hdisjoint "bool" (by decide) d.name (List.mem_map_of_mem hd) heq.symm⟩
  induction h with
  | int =>
    generalize hname : "int" = name at h'
    cases h' with
    | int => rfl
    | bool => exact absurd hname (by decide)
    | definition hd => exact absurd hname.symm (hprimitive _ hd).1
  | bool =>
    generalize hname : "bool" = name at h'
    cases h' with
    | int => exact absurd hname (by decide)
    | bool => rfl
    | definition hd => exact absurd hname.symm (hprimitive _ hd).2
  | array =>
    cases h' with
    | array => rfl
  | @definition _ _ d _ hd _ ih =>
    generalize hname : d.name = name at h'
    cases h' with
    | int => exact absurd hname (hprimitive _ hd).1
    | bool => exact absurd hname (hprimitive _ hd).2
    | @definition _ _ d' _ hd' hnode =>
      have heq : d = d' := List.inj_on_of_nodup_map hnames hd hd' hname
      subst heq
      exact ih hnode

end

/-! ### The nodes of a program -/

section
variable {site : Site} {e : TypeExpr} {a : ArrayNode}

/-- The tags of the arrays of a written type, the innermost one first. -/
lemma TypeExpr.map_tag_arrays : (e.arrays site).map ArrayNode.tag = (e.tags site).reverse := by
  induction e with
  | named => rfl
  | array mark length base ih =>
    rw [arrays, tags, List.map_append, ih, List.reverse_cons]
    rfl

/-- The arrays inside an array of a written type are arrays of that type. -/
lemma TypeExpr.arrays_subset (h : a ∈ e.arrays site) :
    a.base.arrays a.site ⊆ e.arrays site := by
  induction e with
  | named => cases h
  | array mark length base ih =>
    rw [arrays]
    rcases List.mem_append.mp h with h | h
    · exact List.subset_append_of_subset_left _ (ih h)
    · obtain rfl := List.mem_singleton.mp h
      exact List.subset_append_left _ _

/-- The arrays of a written type are built on the same name as the type. -/
lemma TypeExpr.root_of_mem_arrays (h : a ∈ e.arrays site) : a.base.root = e.root := by
  induction e with
  | named => cases h
  | array mark length base ih =>
    rcases List.mem_append.mp h with h | h
    · exact ih h
    · obtain rfl := List.mem_singleton.mp h
      rfl

namespace Program
variable {p : Program} {node node' : TypeNode}

/-- The arrays of a type that a program writes are arrays of the program. -/
lemma arrays_subset_arrayNodes {x : Site × TypeExpr} (hx : x ∈ p.writtenTypes) :
    x.2.arrays x.1 ⊆ p.arrayNodes :=
  fun _ ha => List.mem_flatMap.mpr ⟨x, hx, ha⟩

/-- The arrays inside an array of a program are arrays of the program. -/
lemma base_arrays_subset (ha : a ∈ p.arrayNodes) : a.base.arrays a.site ⊆ p.arrayNodes := by
  obtain ⟨x, hx, ha⟩ := List.mem_flatMap.mp ha
  exact fun b hb => arrays_subset_arrayNodes hx (TypeExpr.arrays_subset ha hb)

/-- The types of definitions are among those that a program writes. -/
lemma mem_writtenTypes_type {d : TypeDef} (hd : d ∈ p.typeDefs) :
    (Site.type d.name, d.type) ∈ p.writtenTypes :=
  List.mem_append_left _
    (List.mem_map_of_mem (f := fun d : TypeDef => (Site.type d.name, d.type)) hd)

/-- The types of variables are among those that a program writes. -/
lemma mem_writtenTypes_variable {q : Procedure} {d : VariableDecl} (hq : q ∈ p.procedures)
    (hd : d ∈ q.decls) : (Site.variable q.name d.name, d.type) ∈ p.writtenTypes :=
  List.mem_append_right _ (List.mem_flatMap.mpr ⟨q, hq,
    List.mem_map_of_mem (f := fun d : VariableDecl => (Site.variable q.name d.name, d.type)) hd⟩)

/-- The types of parameters are among those that a program writes. -/
lemma mem_writtenTypes_parameter {q : Procedure} {x : Parameter} (hq : q ∈ p.procedures)
    (hx : x ∈ q.parameters) : (Site.variable q.name x.name, x.type) ∈ p.writtenTypes :=
  mem_writtenTypes_variable hq
    (List.mem_append_left _ (List.mem_map_of_mem (f := Parameter.decl) hx))

/-- The arrays of a program are tagged in the order in which they are met. -/
lemma map_tag_arrayNodes :
    p.arrayNodes.map ArrayNode.tag = (tagsOf p.typeDefs p.procedures).reverse := by
  unfold arrayNodes writtenTypes tagsOf variableTags
  simp only [List.map_append, List.map_flatMap, TypeExpr.map_tag_arrays, List.flatMap_append,
    List.flatMap_map, List.flatMap_assoc, List.reverse_append, List.reverse_flatMap,
    List.reverse_reverse, Function.comp_def]

/-- A node that is reached from a type whose arrays a program writes is one of the program. -/
lemma mem_typeNodes_of_reaches (h : e.Reaches p.typeDefs site node)
    (hsub : e.arrays site ⊆ p.arrayNodes) : node ∈ p.typeNodes := by
  unfold typeNodes
  induction h with
  | int => exact List.mem_cons_self
  | bool => exact List.mem_cons_of_mem _ List.mem_cons_self
  | array =>
    have ha := hsub (List.mem_append_right _ List.mem_cons_self)
    exact List.mem_cons_of_mem _ (List.mem_cons_of_mem _ (List.mem_map_of_mem ha))
  | definition hd _ ih => exact ih (arrays_subset_arrayNodes (mem_writtenTypes_type hd))

/-- The arrays among the nodes of a program. -/
lemma array_mem_typeNodes : TypeNode.array a ∈ p.typeNodes ↔ a ∈ p.arrayNodes := by
  simp [typeNodes]

/-! ### Handles of nodes -/

@[simp] lemma handle_int : p.handle .int = .int := rfl

@[simp] lemma handle_bool : p.handle .bool = .bool := rfl

/-- Different nodes of a program have different handles. -/
lemma handle_injective (h : node ∈ p.typeNodes) (heq : p.handle node = p.handle node') :
    node = node' :=
  (List.idxOf_inj h).mp (congrArg TypeId.index heq)

/-- If no array of a program is listed twice, no node is. -/
lemma nodup_typeNodes (h : p.arrayNodes.Nodup) : p.typeNodes.Nodup := by
  have hmap := h.map (f := TypeNode.array) fun _ _ heq => TypeNode.array.inj heq
  simpa [typeNodes] using hmap

/-- The handle of an array is its place among the arrays, after the primitive types. -/
lemma handle_of_getElem? (hnodup : p.arrayNodes.Nodup) {k : Nat} (h : p.arrayNodes[k]? = some a) :
    p.handle (.array a) = ⟨TypeTable.primitives + k⟩ := by
  have hget : p.typeNodes[TypeTable.primitives + k]? = some (.array a) := by
    unfold typeNodes TypeTable.primitives
    rw [Nat.add_comm, List.getElem?_cons_succ, List.getElem?_cons_succ, List.getElem?_map, h]
    rfl
  obtain ⟨hk, hget⟩ := List.getElem?_eq_some_iff.mp hget
  unfold handle
  rw [← hget, (nodup_typeNodes hnodup).idxOf_getElem]

end Program

end

end TreeCompiler
