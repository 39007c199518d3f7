import Mathlib.Data.Set.Function
import TreeCompiler.Proofs.Frame.Allocation
import TreeCompiler.Proofs.Types.Defined
import TreeCompiler.Proofs.Typing.Decision

/-!
# Array types are nominal

Two arrays are of the same type only if they come from the same place of the text.  The tables in
which a program is declared record for every declaration the handle of the node that its type
reaches (`Tables.DeclaredWith.typeAt_eq_handle`), and the array under a handle has the length of
its node and the handle of what the node's elements reach
(`Tables.DeclaredWith.exists_array_handle`).  A handle is tied to the text by the origin and the
shape of a written type (`Tables.Resolved`).  Both are followed through names and into the
elements of arrays, and since no two arrays of a program have the same tag, they end at one
node.  Arguments are compared with parameters as handles, and hence as nodes
(`Program.types_nominal`).
-/

namespace TreeCompiler

/-! ### What the tables record -/

/-- The type that the tables record for what is declared at a site. -/
def Tables.typeAt? (t : Tables) : Site → Option TypeId
  | .type name =>
    match t.lookup .global name with
    | some (.type id) => some id
    | _ => none
  | .variable procedure name => do
    let entry ← t.procedure? procedure
    let slot ← (t.scope entry.scope).findVar? name
    return slot.type

/-- The type that is recorded for a variable is that of its slot. -/
lemma Tables.typeAt?_variable {t : Tables} {procedure name : String} {entry : ProcedureEntry}
    {slot : Slot} (hentry : t.procedure? procedure = some entry)
    (hslot : t.binding? entry.scope name = some (.var slot)) :
    t.typeAt? (.variable procedure name) = some slot.type := by
  unfold Tables.binding? at hslot
  unfold Tables.typeAt? Scope.findVar?
  simp [hentry, hslot]

/-! ### Handles that written types are resolved to -/

/-- A handle with a tag has the place of the tag among those of all the arrays, oldest first. -/
lemma getElem?_of_originIn {g : List (ArrayType × Tag)} {id : TypeId} {tag : Tag} {o : Origin}
    (h : originIn g id = some (.array tag o)) :
    ∃ k, id.index = TypeTable.primitives + k ∧ (g.map Prod.snd).reverse[k]? = some tag := by
  induction g generalizing id with
  | nil =>
    unfold originIn at h
    split at h
    · cases h
    · split at h <;> cases h
  | cons x older ih =>
    rw [originIn] at h
    rw [List.map_cons, List.reverse_cons]
    split at h <;> rename_i hid
    · obtain ⟨_, -, heq⟩ := Option.map_eq_some_iff.mp h
      cases heq
      refine ⟨older.length, hid, ?_⟩
      rw [List.getElem?_append_right (by simp)]
      simp
    · obtain ⟨k, hk, hget⟩ := ih h
      refine ⟨k, hk, ?_⟩
      rw [List.getElem?_append_left (List.getElem?_eq_some_iff.mp hget).1]
      exact hget

/-- The tables in which a program is declared, with the tags of their arrays. -/
structure Tables.DeclaredWith (p : Program) (g : List (ArrayType × Tag)) (t : Tables) : Prop where
  declarable : p.Declarable
  lists : t.Lists p.typeDefs p.procedures
  traced : t.Traced p.typeDefs p.procedures g

/-- A handle has the origin and the shape of a type that is written at a site. -/
structure Tables.Resolved (p : Program) (g : List (ArrayType × Tag)) (t : Tables) (site : Site)
    (e : TypeExpr) (id : TypeId) : Prop where
  origin : ∃ o, e.origin? p.typeOrigins site = some o ∧ originIn g id = some o
  shape : ∃ s, e.shape? p.typeNames = some s ∧ t.types.shape? id = some s

section
variable {p : Program} {g : List (ArrayType × Tag)} {t : Tables} {site : Site} {e : TypeExpr}
  {id id' : TypeId} {a : ArrayNode} {node : TypeNode}

namespace Tables.DeclaredWith
variable (h : t.DeclaredWith p g)
include h

/-- No array of the program is listed twice. -/
lemma nodup_arrayTags : (p.arrayNodes.map ArrayNode.tag).Nodup := by
  rw [Program.map_tag_arrayNodes, List.nodup_reverse, ← h.traced.tags]
  exact h.traced.nodup h.lists

/-- The arrays of the table are as many as those of the program. -/
lemma size_eq : t.types.size = TypeTable.primitives + p.arrayNodes.length := by
  have hlength := congrArg List.length h.traced.tags
  have htags := congrArg List.length (Program.map_tag_arrayNodes (p := p))
  rw [List.length_map] at hlength
  rw [List.length_map, List.length_reverse] at htags
  unfold TypeTable.size
  rw [h.traced.arrays, List.length_map, hlength, htags]

/-- A handle with the tag of an array of the program is the handle of that node. -/
lemma eq_handle {o : Origin} (ha : a ∈ p.arrayNodes)
    (hid : originIn g id = some (.array a.tag o)) : id = p.handle (.array a) := by
  obtain ⟨k, hk, hget⟩ := getElem?_of_originIn hid
  rw [h.traced.tags, ← Program.map_tag_arrayNodes, List.getElem?_map] at hget
  obtain ⟨b, hb, htag⟩ := Option.map_eq_some_iff.mp hget
  have heq : b = a := List.inj_on_of_nodup_map h.nodup_arrayTags (List.mem_of_getElem? hb) ha htag
  subst heq
  rw [Program.handle_of_getElem? h.nodup_arrayTags.of_map hb]
  exact congrArg TypeId.mk hk

/-- Only one handle is that of a written type. -/
lemma resolved_unique (hid : t.Resolved p g site e id) (hid' : t.Resolved p g site e id') :
    id = id' := by
  obtain ⟨o, ho, horigin⟩ := hid.origin
  obtain ⟨o', ho', horigin'⟩ := hid'.origin
  rw [ho] at ho'
  cases ho'
  exact h.traced.injective h.lists horigin horigin'

/-- The handle of a defined name is that of the type in its definition. -/
lemma resolved_definition {d : TypeDef} {mark : Mark} (hd : d ∈ p.typeDefs)
    (hid : t.Resolved p g site (.named mark d.name) id) :
    t.Resolved p g (.type d.name) d.type id := by
  obtain ⟨o, ho, horigin⟩ := hid.origin
  obtain ⟨s, hs, hshape⟩ := hid.shape
  exact ⟨⟨o, (h.declarable.lookup_typeOrigins.2.2 d hd).symm.trans ho, horigin⟩,
    s, (h.declarable.lookup_typeNames hd).symm.trans hs, hshape⟩

/-- The handle of an array finds its length and the handle of its elements. -/
lemma resolved_base (hid : t.Resolved p g a.site a.written id) :
    ∃ info, t.types.array? id = some info ∧ info.length = a.length.toNat ∧
      t.Resolved p g a.site a.base info.base := by
  obtain ⟨o, ho, horigin⟩ := hid.origin
  obtain ⟨s, hs, hshape⟩ := hid.shape
  obtain ⟨element, helement, rfl⟩ := Option.map_eq_some_iff.mp ho
  obtain ⟨cell, hcell, rfl⟩ := Option.map_eq_some_iff.mp hs
  obtain ⟨info, hinfo⟩ := exists_findArray_of_originIn horigin
  have hfound : t.types.array? id = some info := by
    unfold TypeTable.array?
    rw [h.traced.arrays]
    exact hinfo
  obtain ⟨tag, element', heq, hbase⟩ := exists_originIn_base horigin hinfo
  cases heq
  obtain ⟨cell', hcell', hshape', -⟩ := h.lists.holds.wellFormed.array?_spec hfound
  obtain ⟨hlength, rfl⟩ := ValueShape.array.inj (Option.some.inj (hshape.symm.trans hshape'))
  exact ⟨info, hfound, hlength.symm, ⟨element, helement, hbase⟩, cell, hcell, hcell'⟩

/-- A handle of a written type is that of the node that the type reaches. -/
lemma eq_handle_of_reaches (hreaches : e.Reaches p.typeDefs site node)
    (hsub : e.arrays site ⊆ p.arrayNodes) (hid : t.Resolved p g site e id) :
    id = p.handle node := by
  induction hreaches with
  | int =>
    obtain ⟨o, ho, horigin⟩ := hid.origin
    obtain rfl := Option.some.inj (ho.symm.trans h.declarable.lookup_typeOrigins.1)
    exact h.traced.injective h.lists horigin originIn_int
  | bool =>
    obtain ⟨o, ho, horigin⟩ := hid.origin
    obtain rfl := Option.some.inj (ho.symm.trans h.declarable.lookup_typeOrigins.2.1)
    exact h.traced.injective h.lists horigin originIn_bool
  | @array site mark length base =>
    obtain ⟨o, ho, horigin⟩ := hid.origin
    obtain ⟨element, -, rfl⟩ := Option.map_eq_some_iff.mp ho
    exact h.eq_handle (hsub (List.mem_append_right _ List.mem_cons_self)) horigin
  | definition hd _ ih =>
    exact ih (Program.arrays_subset_arrayNodes (Program.mem_writtenTypes_type hd))
      (h.resolved_definition hd hid)

/-- The arrays inside a type that is resolved are resolved as well. -/
lemma exists_resolved_array (hid : t.Resolved p g site e id) (ha : a ∈ e.arrays site) :
    ∃ id', t.Resolved p g a.site a.written id' := by
  induction e generalizing id with
  | named => cases ha
  | array mark length base ih =>
    rcases List.mem_append.mp ha with ha | ha
    · obtain ⟨info, -, -, hbase⟩ := h.resolved_base (a := ⟨site, mark, length, base⟩) hid
      exact ih hbase ha
    · obtain rfl := List.mem_singleton.mp ha
      exact ⟨id, hid⟩

/-- The handle that the tables record for a declaration is that of the type written there. -/
lemma exists_typeAt {x : Site × TypeExpr} (hx : x ∈ p.writtenTypes) :
    ∃ id, t.typeAt? x.1 = some id ∧ t.Resolved p g x.1 x.2 id := by
  rcases List.mem_append.mp hx with hx | hx
  · obtain ⟨d, hd, rfl⟩ := List.mem_map.mp hx
    obtain ⟨id, hid⟩ := h.lists.binding?_type
      (List.mem_append_right _ (List.mem_map_of_mem (f := TypeDef.name) hd))
    have hlookup : t.lookup .global d.name = some (.type id) := Tables.lookup_global.trans hid
    have hnamed : t.Resolved p g (.type d.name) (.named d.mark d.name) id :=
      ⟨h.traced.names d.name id hlookup, h.lists.holds.typeNames d.name id hid⟩
    refine ⟨id, ?_, h.resolved_definition hd hnamed⟩
    simp only [Tables.typeAt?, hlookup]
  · obtain ⟨q, hq, hx⟩ := List.mem_flatMap.mp hx
    obtain ⟨d, hd, rfl⟩ := List.mem_map.mp hx
    obtain ⟨entry, hentry⟩ := h.lists.holds.declared q hq
    obtain ⟨slot, hbound, -, hshape⟩ := hentry.knows d hd
    refine ⟨slot.type, ?_, (h.traced.slots q hq entry hentry.bound).2 d hd slot hbound, hshape⟩
    exact Tables.typeAt?_variable (Tables.procedure?_eq_some.mpr hentry.bound) hbound

/-- A procedure's entry lists for each parameter how it is passed and the handle of its type. -/
lemma parameters_resolved {q : Procedure} {entry : ProcedureEntry} (hq : q ∈ p.procedures)
    (hentry : t.procedure? q.name = some entry) :
    List.Forall₂ (fun (x : Parameter) (slot : Slot) =>
      x ∈ q.parameters ∧ slot.isReference = x.isReference ∧
        t.Resolved p g (.variable q.name x.name) x.type slot.type)
      q.parameters entry.parameters := by
  have hdeclares := h.lists.holds.declares hq (Tables.procedure?_eq_some.mp hentry)
  have hslots := forall₂_and (h.traced.slots q hq entry hdeclares.bound).1 hdeclares.parameters
  rw [List.forall₂_map_right_iff] at hslots
  refine (List.forall₂_and_left _ _).mpr ⟨fun _ hx => hx, hslots.flip.imp fun x slot hslot => ?_⟩
  exact ⟨hslot.2.1, hslot.1, hslot.2.2⟩

/-- A procedure's entry records for each parameter the handle that the procedure's scope records. -/
lemma parameters_typeAt {q : Procedure} {entry : ProcedureEntry} (hq : q ∈ p.procedures)
    (hentry : t.procedure? q.name = some entry) :
    List.Forall₂ (fun (x : Parameter) (slot : Slot) =>
      t.typeAt? (.variable q.name x.name) = some slot.type) q.parameters entry.parameters := by
  refine (h.parameters_resolved hq hentry).imp fun x slot hslot => ?_
  obtain ⟨hx, -, hresolved⟩ := hslot
  obtain ⟨id, hid, hsame⟩ := h.exists_typeAt (Program.mem_writtenTypes_parameter hq hx)
  exact hid.trans (congrArg some (h.resolved_unique hsame hresolved))

/-- The handle that is recorded for a declaration is that of the node that its type reaches. -/
lemma typeAt_eq_handle {x : Site × TypeExpr} (hx : x ∈ p.writtenTypes)
    (hreaches : x.2.Reaches p.typeDefs x.1 node) : t.typeAt? x.1 = some (p.handle node) := by
  obtain ⟨id, hid, hresolved⟩ := h.exists_typeAt hx
  rw [hid, h.eq_handle_of_reaches hreaches (Program.arrays_subset_arrayNodes hx) hresolved]

/-- The handle of an array of the program finds its length and the handle of its elements. -/
lemma exists_array_handle (ha : a ∈ p.arrayNodes) :
    ∃ info base, t.types.array? (p.handle (.array a)) = some info ∧
      info.length = a.length.toNat ∧ a.base.Reaches p.typeDefs a.site base ∧
      info.base = p.handle base := by
  obtain ⟨x, hx, hmem⟩ := List.mem_flatMap.mp ha
  obtain ⟨id, -, hid⟩ := h.exists_typeAt hx
  obtain ⟨id', hid'⟩ := h.exists_resolved_array hid hmem
  have hsub := Program.base_arrays_subset ha
  have hself : a.written.arrays a.site ⊆ p.arrayNodes :=
    List.append_subset.mpr ⟨hsub, fun _ hb => List.mem_singleton.mp hb ▸ ha⟩
  obtain ⟨info, hinfo, hlength, hbase⟩ := h.resolved_base hid'
  obtain ⟨base, hreaches⟩ := h.declarable.exists_reaches_base ha
  rw [h.eq_handle_of_reaches .array hself hid'] at hinfo
  exact ⟨info, base, hinfo, hlength, hreaches, h.eq_handle_of_reaches hreaches hsub hbase⟩

/-- The arrays of the program have the handles that are not those of the primitive types. -/
lemma handle_bijOn : Set.BijOn (fun a => p.handle (.array a)) {a | a ∈ p.arrayNodes}
    {id | t.types.contains id = true ∧ id ≠ .int ∧ id ≠ .bool} := by
  have hnodup := h.nodup_arrayTags.of_map
  refine ⟨fun a ha => ?mapsTo, fun a ha a' _ heq => ?injOn, fun id hid => ?surjOn⟩
  case mapsTo =>
    have hmem := Program.array_mem_typeNodes.mpr ha
    refine ⟨?_, fun heq => ?_, fun heq => ?_⟩
    · obtain ⟨k, hk⟩ := List.getElem?_of_mem ha
      have hlt := (List.getElem?_eq_some_iff.mp hk).1
      have hindex : (p.handle (.array a)).index = TypeTable.primitives + k :=
        congrArg TypeId.index (Program.handle_of_getElem? hnodup hk)
      refine decide_eq_true (hindex.trans_lt ?_)
      rw [h.size_eq]
      exact Nat.add_lt_add_left hlt _
    · cases Program.handle_injective hmem (heq.trans Program.handle_int.symm)
    · cases Program.handle_injective hmem (heq.trans Program.handle_bool.symm)
  case injOn =>
    exact TypeNode.array.inj (Program.handle_injective (Program.array_mem_typeNodes.mpr ha) heq)
  case surjOn =>
    obtain ⟨hcontains, hint, hbool⟩ := hid
    have hlt := of_decide_eq_true hcontains
    rw [h.size_eq] at hlt
    rcases id with ⟨_ | _ | k⟩
    · exact absurd rfl hint
    · exact absurd rfl hbool
    · have hk : k < p.arrayNodes.length := by
        change k + 2 < 2 + p.arrayNodes.length at hlt
        omega
      refine ⟨p.arrayNodes[k], List.getElem_mem hk, ?_⟩
      exact (Program.handle_of_getElem? hnodup (List.getElem?_eq_getElem hk)).trans
        (congrArg TypeId.mk (Nat.add_comm _ _))

/-! ### Places -/

/-- The type of a place is the handle of the node that the place stands for. -/
lemma exists_reachesPlace {q : Procedure} {entry : ProcedureEntry} (hq : q ∈ p.procedures)
    (hentry : t.procedure? q.name = some entry) {v : Variable} {id : TypeId}
    (hv : v.HasType t entry.scope id) :
    ∃ node ∈ p.typeNodes, p.ReachesPlace q v node ∧ id = p.handle node := by
  match v, hv with
  | .named mark name, .named hslot =>
    have hdeclares := h.lists.holds.declares hq (Tables.procedure?_eq_some.mp hentry)
    obtain ⟨hbound, d, hd, rfl, -⟩ := hdeclares.lookup_var h.lists.holds hslot
    have hx := Program.mem_writtenTypes_variable hq hd
    obtain ⟨node, hreaches⟩ := h.declarable.exists_reaches hx
    have htype := h.typeAt_eq_handle hx hreaches
    rw [Tables.typeAt?_variable hentry hbound] at htype
    exact ⟨node, Program.mem_typeNodes_of_reaches hreaches (Program.arrays_subset_arrayNodes hx),
      .named hd hreaches, Option.some.inj htype⟩
  | .element mark array index, .element harray hinfo _ =>
    obtain ⟨node, hnode, hplace, rfl⟩ := exists_reachesPlace hq hentry harray
    obtain ⟨_, -, hshape, -⟩ := h.lists.holds.wellFormed.array?_spec hinfo
    cases node with
    | int => cases TypeTable.isScalar_of_primitive (.inl rfl) hshape
    | bool => cases TypeTable.isScalar_of_primitive (.inr rfl) hshape
    | array a =>
      have ha := Program.array_mem_typeNodes.mp hnode
      obtain ⟨info, base, hfound, -, hreaches, hbase⟩ := h.exists_array_handle ha
      obtain rfl := Option.some.inj (hinfo.symm.trans hfound)
      exact ⟨base, Program.mem_typeNodes_of_reaches hreaches (Program.base_arrays_subset ha),
        .element hplace hreaches, hbase⟩

/-- An argument that is accepted by reference is a variable that stands for the node of the
parameter. -/
lemma exists_variable_of_accepts {q : Procedure} {entry : ProcedureEntry} (hq : q ∈ p.procedures)
    (hentry : t.procedure? q.name = some entry) {slot : Slot} {argument : Expr}
    (haccepts : slot.Accepts t entry.scope argument) (href : slot.isReference = true)
    (htype : slot.type = p.handle node) :
    ∃ v, Expr.variable? argument = some v ∧ p.ReachesPlace q v node := by
  obtain ⟨htyped, hvariable⟩ := haccepts
  obtain ⟨v, hv⟩ := Option.isSome_iff_exists.mp (hvariable href)
  cases argument with
  | read mark source =>
    cases hv
    cases htyped with
    | read hsource =>
      obtain ⟨node', hnode', hplace, heq⟩ := h.exists_reachesPlace hq hentry hsource
      obtain rfl := Program.handle_injective hnode' (heq.symm.trans htype)
      exact ⟨v, rfl, hplace⟩
  | _ => cases hv

/-- The arguments that a procedure of the program accepts by reference stand for the nodes of the
parameters. -/
lemma exists_variables {q r : Procedure} {entry callee : ProcedureEntry} {arguments : List Expr}
    (hq : q ∈ p.procedures) (hentry : t.procedure? q.name = some entry) (hr : r ∈ p.procedures)
    (hcallee : t.procedure? r.name = some callee)
    (haccepts : List.Forall₂ (Slot.Accepts t entry.scope) callee.parameters arguments) :
    List.Forall₂ (fun (x : Parameter) argument => x.isReference = true → ∃ v node,
      Expr.variable? argument = some v ∧ p.ReachesPlace q v node ∧
        x.type.Reaches p.typeDefs (.variable r.name x.name) node) r.parameters arguments := by
  refine forall₂_comp (h.parameters_resolved hr hcallee) haccepts
    fun x slot argument hslot haccepted href => ?_
  obtain ⟨hx, hisReference, hresolved⟩ := hslot
  have hwritten := Program.mem_writtenTypes_parameter hr hx
  obtain ⟨node, hreaches⟩ := h.declarable.exists_reaches hwritten
  have htype :=
    h.eq_handle_of_reaches hreaches (Program.arrays_subset_arrayNodes hwritten) hresolved
  obtain ⟨v, hv, hplace⟩ :=
    h.exists_variable_of_accepts hq hentry haccepted (hisReference.trans href) htype
  exact ⟨v, node, hv, hplace, hreaches⟩

/-- The arguments that a runtime procedure accepts by reference stand for integers. -/
lemma exists_variables_runtime {q : Procedure} {r : RuntimeProcedure}
    {entry callee : ProcedureEntry} {arguments : List Expr} (hq : q ∈ p.procedures)
    (hentry : t.procedure? q.name = some entry)
    (hcallee : t.DeclaresRuntime r callee)
    (haccepts : List.Forall₂ (Slot.Accepts t entry.scope) callee.parameters arguments) :
    List.Forall₂ (fun isReference argument => isReference = true → ∃ v,
      Expr.variable? argument = some v ∧ p.ReachesPlace q v .int) r.references arguments := by
  obtain ⟨-, -, hslots⟩ := hcallee
  refine forall₂_comp hslots.flip haccepts fun isReference slot argument hslot haccepted href => ?_
  obtain ⟨htype, hisReference⟩ := hslot
  exact h.exists_variable_of_accepts hq hentry haccepted (hisReference.trans href) htype

end Tables.DeclaredWith

end

/-- The tables in which a program is declared come with tags for their arrays. -/
lemma Program.exists_declaredWith {p : Program} {t : Tables}
    (declared : p.declare.runOn .predefined = (.ok (), t)) : ∃ g, t.DeclaredWith p g := by
  obtain ⟨hlists, g, htraced⟩ := p.declare_traced.of_ok declared
  exact ⟨g, (p.declare_ends.of_ok declared).1, hlists, htraced⟩

/-- Array types are nominal.  In the tables in which a program is declared the handles are those
of the primitive types, and one for each array that the program writes, which finds the length
that is written there and the handle of what the elements reach.  What is recorded for a type
definition or for a variable, and for a parameter both in its procedure's scope and in its
procedure's entry, is the handle of the node that the written type reaches through the type
definitions, so that two declarations have the same type exactly if they reach the same node.  In
a program that is accepted, what is passed by reference reaches the node of the parameter, and
that of the integers if the callee is a procedure of the runtime library. -/
theorem Program.types_nominal (p : Program) (t : Tables)
    (declared : p.declare.runOn .predefined = (.ok (), t)) :
    (p.handle .int = .int ∧ p.handle .bool = .bool ∧
      Set.BijOn (fun a => p.handle (.array a)) {a | a ∈ p.arrayNodes}
        {id | t.types.contains id = true ∧ id ≠ .int ∧ id ≠ .bool} ∧
      t.types.size = 2 + p.arrayNodes.length ∧
      ∀ a ∈ p.arrayNodes, ∃ info base, t.types.array? (p.handle (.array a)) = some info ∧
        info.length = a.length.toNat ∧ a.base.Reaches p.typeDefs a.site base ∧
        info.base = p.handle base) ∧
    ((∀ x ∈ p.writtenTypes, ∃ node, x.2.Reaches p.typeDefs x.1 node ∧
        t.typeAt? x.1 = some (p.handle node)) ∧
      (∀ q ∈ p.procedures, ∃ entry, t.procedure? q.name = some entry ∧
        List.Forall₂ (fun (x : Parameter) (slot : Slot) =>
          t.typeAt? (.variable q.name x.name) = some slot.type) q.parameters entry.parameters) ∧
      ∀ x ∈ p.writtenTypes, ∀ y ∈ p.writtenTypes, t.typeAt? x.1 = t.typeAt? y.1 ↔
        ∃ node, x.2.Reaches p.typeDefs x.1 node ∧ y.2.Reaches p.typeDefs y.1 node) ∧
    ∀ annotations, p.check t = .ok annotations →
      ∀ q ∈ p.procedures, ∀ callee arguments, (callee, arguments) ∈ q.calls →
        (∀ r ∈ p.procedures, r.name = callee →
          List.Forall₂ (fun (x : Parameter) argument => x.isReference = true → ∃ v node,
            Expr.variable? argument = some v ∧ p.ReachesPlace q v node ∧
              x.type.Reaches p.typeDefs (.variable r.name x.name) node) r.parameters arguments) ∧
        ∀ r ∈ runtimeProcedures, r.name = callee →
          List.Forall₂ (fun isReference argument => isReference = true → ∃ v,
            Expr.variable? argument = some v ∧ p.ReachesPlace q v .int) r.references arguments := by
  obtain ⟨g, h⟩ := p.exists_declaredWith declared
  refine ⟨⟨p.handle_int, p.handle_bool, h.handle_bijOn, h.size_eq, fun a ha =>
    h.exists_array_handle ha⟩, ⟨fun x hx => ?recorded, fun q hq => ?parameters,
    fun x hx y hy => ?same⟩, fun annotations hcheck q hq callee arguments hcall => ?passed⟩
  case recorded =>
    obtain ⟨node, hreaches⟩ := h.declarable.exists_reaches hx
    exact ⟨node, hreaches, h.typeAt_eq_handle hx hreaches⟩
  case parameters =>
    obtain ⟨entry, hentry⟩ := h.lists.holds.declared q hq
    have hfound := Tables.procedure?_eq_some.mpr hentry.bound
    exact ⟨entry, hfound, h.parameters_typeAt hq hfound⟩
  case same =>
    obtain ⟨node, hnode⟩ := h.declarable.exists_reaches hx
    obtain ⟨node', hnode'⟩ := h.declarable.exists_reaches hy
    rw [h.typeAt_eq_handle hx hnode, h.typeAt_eq_handle hy hnode', Option.some_inj]
    constructor
    · intro heq
      have hmem := mem_typeNodes_of_reaches hnode (arrays_subset_arrayNodes hx)
      obtain rfl := handle_injective hmem heq
      exact ⟨node, hnode, hnode'⟩
    · rintro ⟨node'', hx'', hy''⟩
      rw [hnode.unique h.declarable.nodup_rootNames hx'',
        hnode'.unique h.declarable.nodup_rootNames hy'']
  case passed =>
    obtain ⟨entry, hentry, hbody⟩ := (exists_check_eq_ok_iff.mp ⟨annotations, hcheck⟩).2 q hq
    obtain ⟨s, hs, hcall⟩ := mem_callsOf.mp hcall
    obtain ⟨slots, hlookup, haccepts⟩ := (hbody s hs).callee _ hcall
    have hdeclares := h.lists.holds.declares hq (Tables.procedure?_eq_some.mp hentry)
    have hbound := hdeclares.lookup_procedure h.lists.holds hlookup
    refine ⟨fun r hr hname => ?_, fun r hr hname => ?_⟩
    · subst hname
      exact h.exists_variables hq hentry hr (Tables.procedure?_eq_some.mpr hbound) haccepts
    · subst hname
      obtain ⟨runtime, hruntime⟩ := h.lists.holds.runtime r hr
      obtain rfl := Entry.procedure.inj (Option.some.inj (hruntime.1.symm.trans hbound))
      exact h.exists_variables_runtime hq hentry hruntime haccepts

/-! ### A program -/

/-- A program with a type under two names, and with a row of a grid that is passed by reference; a
local variable of the same shape has a type of its own. -/
def grids : Program where
  definitions := [
    .type ⟨.atLine 1, "row", .array (.atLine 1) 3 (.named (.atLine 1) "int")⟩,
    .type ⟨.atLine 2, "line", .named (.atLine 2) "row"⟩,
    .procedure
      { mark := .atLine 3
        name := "clear"
        parameters := [⟨.atLine 3, "r", .named (.atLine 3) "line", true⟩]
        locals := []
        body := [] },
    .procedure
      { mark := .atLine 5
        name := "main"
        parameters := []
        locals := [⟨.atLine 6, "g", .array (.atLine 6) 2 (.named (.atLine 6) "row")⟩,
          ⟨.atLine 7, "s", .array (.atLine 7) 3 (.named (.atLine 7) "int")⟩]
        body := [.call (.atLine 8) "clear" [.read (.atLine 8) (.element (.atLine 8)
          (.named (.atLine 8) "g") (.int (.atLine 8) 1))]] }]

/-- The tables in which the program with grids is declared. -/
def gridsTables : Tables := (grids.declare.runOn .predefined).2

/-- The program with grids has three array types: that of the parameter is the row, that of the
local variable is another one, and the row that is passed is the same node as the parameter. -/
theorem Program.types_nominal_grids :
    grids.declare.runOn .predefined = (.ok (), gridsTables) ∧ gridsTables.types.size = 5 ∧
      gridsTables.typeAt? (.variable "clear" "r") = gridsTables.typeAt? (.type "row") ∧
      gridsTables.typeAt? (.variable "main" "s") ≠ gridsTables.typeAt? (.type "row") ∧
      (∃ annotations, grids.check gridsTables = .ok annotations) ∧
      ∀ q ∈ grids.procedures, ∀ arguments, ("clear", arguments) ∈ q.calls →
        ∀ argument ∈ arguments, ∃ v node, Expr.variable? argument = some v ∧
          grids.ReachesPlace q v node ∧
          (TypeExpr.named (.atLine 3) "line").Reaches grids.typeDefs (.variable "clear" "r")
            node := by
  have declared : grids.declare.runOn .predefined = (.ok (), gridsTables) := by decide +kernel
  have hchecked : (grids.check gridsTables).isOk = true := by decide +kernel
  obtain ⟨annotations, hcheck⟩ : ∃ annotations, grids.check gridsTables = .ok annotations := by
    cases h : grids.check gridsTables with
    | ok annotations => exact ⟨annotations, rfl⟩
    | error e =>
      rw [h] at hchecked
      cases hchecked
  obtain ⟨⟨-, -, -, hsize, -⟩, ⟨-, -, hsame⟩, hpassed⟩ := types_nominal grids gridsTables declared
  have hrow : (Site.type "row", TypeExpr.array (.atLine 1) 3 (.named (.atLine 1) "int")) ∈
      grids.writtenTypes := List.mem_cons_self
  refine ⟨declared, hsize, ?_, ?_, ⟨annotations, hcheck⟩, fun q hq arguments hcall => ?_⟩
  · refine (hsame (_, .named (.atLine 3) "line") ?_ _ hrow).mpr ⟨_, ?_, .array⟩
    · exact List.mem_cons_of_mem _ (List.mem_cons_of_mem _ List.mem_cons_self)
    · exact .definition (List.mem_cons_of_mem _ List.mem_cons_self)
        (.definition List.mem_cons_self .array)
  · intro heq
    obtain ⟨node, hlocal, hnode⟩ := (hsame (_, .array (.atLine 7) 3 (.named (.atLine 7) "int"))
      (List.mem_cons_of_mem _ (List.mem_cons_of_mem _ (List.mem_cons_of_mem _
        (List.mem_cons_of_mem _ List.mem_cons_self)))) _ hrow).mp heq
    cases hlocal
    cases hnode
  · have haccepted := (hpassed annotations hcheck q hq "clear" arguments hcall).1 _
      List.mem_cons_self rfl
    cases haccepted with
    | cons hargument hrest =>
      cases hrest
      intro argument hmem
      obtain rfl := List.mem_singleton.mp hmem
      exact hargument rfl

end TreeCompiler
