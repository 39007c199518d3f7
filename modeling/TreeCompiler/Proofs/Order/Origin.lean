import TreeCompiler.Proofs.Declaration
import TreeCompiler.Proofs.List

/-!
# Where types come from

Every array that is written in a program is a type of its own, so that a handle stands for the place
where the type is written (`Origin`): the site of the declaration, how many arrays there are inside,
and where the elements come from.  The table of types only keeps the arrays in the order in which they
were added; the origins are read off a list that tags each of them with its place.  No two handles have
the same origin (`originIn_injective`), and once a program is declared its variables have the origins
that its text gives them (`Program.declare_traced`), whatever the order of its procedures.
-/

namespace TreeCompiler

/-! ### Origins -/

/-- Where a type is written: in the definition of a type, or in the declaration of a variable of a
procedure. -/
inductive Site where
  | type (name : String)
  | variable (procedure name : String)
deriving DecidableEq

/-- An array that is written at a site, with so many arrays inside it. -/
structure Tag where
  site : Site
  inside : Nat
deriving DecidableEq

/-- Where a type comes from. -/
inductive Origin where
  | int
  | bool
  | array (tag : Tag) (element : Origin)

/-- The origin of a handle among arrays with their tags, newest first. -/
def originIn : List (ArrayType × Tag) → TypeId → Option Origin
  | [], id => if id = .int then some .int else if id = .bool then some .bool else none
  | x :: older, id =>
    if id.index = TypeTable.primitives + older.length then
      (originIn older x.1.base).map (.array x.2)
    else originIn older id

section
variable {g : List (ArrayType × Tag)} {id id' : TypeId} {o : Origin}

/-- A handle with an origin is that of a primitive type or of one of the arrays. -/
lemma index_lt_of_originIn (h : originIn g id = some o) :
    id.index < TypeTable.primitives + g.length := by
  induction g generalizing id o with
  | nil =>
    unfold originIn at h
    split at h
    · rename_i hid
      rw [hid]
      decide
    · split at h
      · rename_i hid
        rw [hid]
        decide
      · cases h
  | cons x older ih =>
    rw [originIn] at h
    split at h
    · rename_i hid
      rw [hid, List.length_cons]
      exact Nat.lt_succ_self _
    · exact Nat.lt_succ_of_lt (ih h)

/-- More arrays leave the origins of the older handles as they are. -/
lemma originIn_append (h : originIn g id = some o) (new : List (ArrayType × Tag)) :
    originIn (new ++ g) id = some o := by
  induction new with
  | nil => exact h
  | cons x new ih =>
    rw [List.cons_append, originIn, if_neg (Nat.ne_of_lt (index_lt_of_originIn ih))]
    exact ih

/-- The integers come from nowhere else. -/
@[simp] lemma originIn_int : originIn g .int = some .int := by
  have h : originIn (g ++ []) .int = some .int := originIn_append (g := []) rfl g
  rwa [List.append_nil] at h

/-- The truth values come from nowhere else. -/
@[simp] lemma originIn_bool : originIn g .bool = some .bool := by
  have h : originIn (g ++ []) .bool = some .bool := originIn_append (g := []) rfl g
  rwa [List.append_nil] at h

/-- The tag of an origin is that of one of the arrays. -/
lemma mem_of_originIn {tag : Tag} {element : Origin}
    (h : originIn g id = some (.array tag element)) : tag ∈ g.map Prod.snd := by
  induction g generalizing id with
  | nil =>
    unfold originIn at h
    split at h
    · cases h
    · split at h <;> cases h
  | cons x older ih =>
    rw [originIn] at h
    rw [List.map_cons]
    split at h
    · obtain ⟨_, -, heq⟩ := Option.map_eq_some_iff.mp h
      cases heq
      exact List.mem_cons_self
    · exact List.mem_cons_of_mem _ (ih h)

/-- If no two arrays have the same tag, then no two handles have the same origin. -/
lemma originIn_injective (hnodup : (g.map Prod.snd).Nodup) (h : originIn g id = some o)
    (h' : originIn g id' = some o) : id = id' := by
  induction g generalizing id id' o with
  | nil =>
    unfold originIn at h h'
    grind
  | cons x older ih =>
    rw [List.map_cons, List.nodup_cons] at hnodup
    rw [originIn] at h h'
    -- The tag of the newest array is not among those of the older ones.
    have hfresh : ∀ i e, originIn older i ≠ some (.array x.2 e) := fun i e hi =>
      hnodup.1 (mem_of_originIn hi)
    split at h <;> rename_i hid <;> split at h' <;> rename_i hid'
    · rcases id with ⟨i⟩
      rcases id' with ⟨i'⟩
      exact congrArg TypeId.mk (hid.trans hid'.symm)
    · obtain ⟨e, -, rfl⟩ := Option.map_eq_some_iff.mp h
      exact absurd h' (hfresh _ e)
    · obtain ⟨e, -, rfl⟩ := Option.map_eq_some_iff.mp h'
      exact absurd h (hfresh _ e)
    · exact ih hnodup.2 h h'

/-- An array that is found comes from an array, and its elements from the elements of that. -/
lemma exists_originIn_base {a : ArrayType} (h : originIn g id = some o)
    (ha : TypeTable.findArray id (g.map Prod.fst) = some a) :
    ∃ tag element, o = .array tag element ∧ originIn g a.base = some element := by
  induction g with
  | nil => cases ha
  | cons x older ih =>
    rw [originIn] at h
    rw [List.map_cons, TypeTable.findArray, List.length_map] at ha
    split at ha <;> rename_i hid
    · cases ha
      rw [if_pos hid] at h
      obtain ⟨element, hbase, rfl⟩ := Option.map_eq_some_iff.mp h
      exact ⟨x.2, element, rfl, originIn_append hbase [x]⟩
    · rw [if_neg hid] at h
      obtain ⟨tag, element, ho, hbase⟩ := ih h ha
      exact ⟨tag, element, ho, originIn_append hbase [x]⟩

/-- What comes from an array is found as one. -/
lemma exists_findArray_of_originIn {tag : Tag} {element : Origin}
    (h : originIn g id = some (.array tag element)) :
    ∃ a, TypeTable.findArray id (g.map Prod.fst) = some a := by
  induction g generalizing id with
  | nil =>
    unfold originIn at h
    split at h
    · cases h
    · split at h <;> cases h
  | cons x older ih =>
    rw [originIn] at h
    rw [List.map_cons, TypeTable.findArray, List.length_map]
    split at h <;> rename_i hid
    · exact ⟨x.1, if_pos hid⟩
    · rw [if_neg hid]
      exact ih h

end

/-! ### Origins of written types -/

/-- How many arrays are written around the name that a type is built on. -/
def TypeExpr.depth : TypeExpr → Nat
  | .named _ _ => 0
  | .array _ _ base => base.depth + 1

/-- The origin of a type that is written at a site, given the origins of the names of types. -/
def TypeExpr.origin? (origins : List (String × Origin)) (site : Site) : TypeExpr → Option Origin
  | .named _ name => origins.lookup name
  | .array _ _ base => (base.origin? origins site).map (.array ⟨site, base.depth⟩)

/-- The tags of the arrays that are written at a site, the outermost one first. -/
def TypeExpr.tags (site : Site) : TypeExpr → List Tag
  | .named _ _ => []
  | .array _ _ base => ⟨site, base.depth⟩ :: base.tags site

/-- The origins of the names that type definitions introduce, each of which may use those above it. -/
def typeOriginsFrom (origins : List (String × Origin)) : List TypeDef → List (String × Origin)
  | [] => origins
  | d :: rest =>
    match d.type.origin? origins (.type d.name) with
    | some o => typeOriginsFrom ((d.name, o) :: origins) rest
    | none => typeOriginsFrom origins rest

/-- The origins of the primitive types. -/
def primitiveOrigins : List (String × Origin) := [("int", .int), ("bool", .bool)]

/-- The origins of the names of types in a program. -/
def Program.typeOrigins (p : Program) : List (String × Origin) :=
  typeOriginsFrom primitiveOrigins p.typeDefs

/-- The origins of names that one more type definition leads to. -/
lemma typeOriginsFrom_concat {origins : List (String × Origin)} {d : TypeDef} {l : List TypeDef}
    {o : Origin} (h : d.type.origin? (typeOriginsFrom origins l) (.type d.name) = some o) :
    typeOriginsFrom origins (l ++ [d]) = (d.name, o) :: typeOriginsFrom origins l := by
  induction l generalizing origins with
  | nil =>
    simp only [typeOriginsFrom, List.nil_append] at h ⊢
    rw [h]
  | cons d' l ih =>
    rw [typeOriginsFrom] at h
    rw [List.cons_append, typeOriginsFrom, typeOriginsFrom]
    split at h <;> exact ih h

/-- The tags of a written type tell its site, and how deep the array is. -/
lemma TypeExpr.mem_tags {site : Site} {e : TypeExpr} {tag : Tag} (h : tag ∈ e.tags site) :
    tag.site = site ∧ tag.inside < e.depth := by
  induction e with
  | named => cases h
  | array mark length base ih =>
    rcases List.mem_cons.mp h with rfl | h
    · exact ⟨rfl, Nat.lt_succ_self _⟩
    · exact ⟨(ih h).1, Nat.lt_succ_of_lt (ih h).2⟩

/-- The arrays of a written type have different tags. -/
lemma TypeExpr.nodup_tags {site : Site} (e : TypeExpr) : (e.tags site).Nodup := by
  induction e with
  | named => exact .nil
  | array mark length base ih =>
    exact List.nodup_cons.mpr ⟨fun h => Nat.lt_irrefl _ (mem_tags h).2, ih⟩

/-! ### Resolving types -/

variable {names : List (String × ValueShape)} {origins : List (String × Origin)}
  {procedures : List Procedure} {t before : Tables} {scope : ScopeId}
  {g g' : List (ArrayType × Tag)} {site : Site} {procedure : String}

/-- An array that is added comes first, and has the next handle. -/
lemma TypeTable.addArray_eq_some {types types' : TypeTable} {base id : TypeId} {length : Nat}
    (h : types.addArray base length = some (id, types')) :
    id.index = primitives + types.arrays.length ∧
      ∃ size, types'.arrays = ⟨length, base, size⟩ :: types.arrays := by
  unfold addArray at h
  dsimp only at h
  split at h
  · cases h
    exact ⟨rfl, _, rfl⟩
  · cases h

/-- In a scope the names of types have the origins that they should, where the arrays of the table
are tagged. -/
structure Tables.Traces (origins : List (String × Origin)) (g : List (ArrayType × Tag)) (t : Tables)
    (scope : ScopeId) : Prop where
  arrays : t.types.arrays = g.map Prod.fst
  names : ∀ n id, t.lookup scope n = some (.type id) →
    ∃ o, origins.lookup n = some o ∧ originIn g id = some o

/-- A written type gets a handle of its origin, and its arrays are tagged with the site. -/
lemma TypeExpr.resolve_traces (e : TypeExpr) (site : Site) (h : t.Traces origins g scope) :
    (e.resolve scope).Ends t
      (fun id t' => t'.scopes = t.scopes ∧ ∃ new : List (ArrayType × Tag),
        t'.types.arrays = (new ++ g).map Prod.fst ∧ new.map Prod.snd = e.tags site ∧
        ∃ o, e.origin? origins site = some o ∧ originIn (new ++ g) id = some o)
      fun _ _ => True := by
  induction e with
  | named mark name =>
    unfold resolve
    rw [Step.ends_bind, Step.ends_get]
    split
    · trivial
    · rename_i id hid
      obtain ⟨o, ho, horigin⟩ := h.names name id hid
      exact ⟨rfl, [], h.arrays, rfl, o, ho, horigin⟩
    · trivial
  | array mark length base ih =>
    unfold resolve
    rw [Step.ends_bind]
    refine ih.mono (fun id t₁ h₁ => ?_) fun _ _ h => h
    obtain ⟨hscopes, new, harrays, htags, o, ho, horigin⟩ := h₁
    rw [Step.ends_bind, Step.ends_get]
    split
    · rename_i id' types hadd
      obtain ⟨hid', size, harrays'⟩ := TypeTable.addArray_eq_some hadd
      rw [harrays, List.length_map] at hid'
      rw [Step.ends_bind, Step.ends_set, Step.ends_pure]
      refine ⟨hscopes, (⟨length.toNat, id, size⟩, ⟨site, base.depth⟩) :: new, ?_, ?_,
        .array ⟨site, base.depth⟩ o, ?_, ?_⟩
      · rw [harrays', harrays]
        rfl
      · rw [List.map_cons, htags, tags]
      · rw [origin?, ho]
        rfl
      · rw [List.cons_append, originIn, if_pos hid', horigin]
        rfl
    · trivial

/-! ### Declaring variables -/

/-- The origin of the type of a variable of a procedure. -/
def VariableDecl.origin? (origins : List (String × Origin)) (procedure : String) (d : VariableDecl) :
    Option Origin :=
  d.type.origin? origins (.variable procedure d.name)

/-- The type of a slot has the origin that it should for a variable of a procedure. -/
def Slot.Traces (origins : List (String × Origin)) (procedure : String) (g : List (ArrayType × Tag))
    (slot : Slot) (d : VariableDecl) : Prop :=
  ∃ o, d.origin? origins procedure = some o ∧ originIn g slot.type = some o

/-- A slot has its origin also among more arrays. -/
lemma Slot.Traces.append {slot : Slot} {d : VariableDecl}
    (h : slot.Traces origins procedure g d) (new : List (ArrayType × Tag)) :
    slot.Traces origins procedure (new ++ g) d := by
  obtain ⟨o, ho, horigin⟩ := h
  exact ⟨o, ho, originIn_append horigin new⟩

/-- The tags of the arrays in the declarations of a procedure's variables, the last one first. -/
def variableTags (procedure : String) (l : List VariableDecl) : List Tag :=
  l.reverse.flatMap fun d => d.type.tags (.variable procedure d.name)

/-- While the variables of a procedure are declared: the arrays are tagged with their sites, and the
variables of the new scope have the origins that they should. -/
structure Tables.Tracing (origins : List (String × Origin)) (procedure : String) (before : Tables)
    (tags : List Tag) (done : List VariableDecl) (g : List (ArrayType × Tag)) (t : Tables) :
    Prop where
  arrays : t.types.arrays = g.map Prod.fst
  tags : g.map Prod.snd = variableTags procedure done ++ tags
  names : ∀ n id, before.lookup .global n = some (.type id) →
    ∃ o, origins.lookup n = some o ∧ originIn g id = some o
  vars : ∀ d ∈ done, ∀ slot, t.binding? ⟨before.scopes.length⟩ d.name = some (.var slot) →
    slot.Traces origins procedure g d

/-- Where the scopes are the same, so are the bindings. -/
lemma Tables.binding?_congr {t' : Tables} (h : t'.scopes = t.scopes) {n : String} :
    t'.binding? scope n = t.binding? scope n := by
  unfold Tables.binding? Tables.scope Tables.scope?
  rw [h]

section
variable {tags : List Tag} {done : List VariableDecl}

namespace Tables.Tracing

/-- The names of types in the new scope have the origins that they should. -/
lemma traces (h : Tables.Tracing origins procedure before tags done g t)
    (hdeclaring : before.Declaring names done t) (hbefore : before.Holds names procedures) :
    t.Traces origins g ⟨before.scopes.length⟩ :=
  ⟨h.arrays, fun n id hid => h.names n id (hdeclaring.lookup_type hbefore hid).2⟩

/-- A variable whose type is resolved is one more variable with the origin that it should have. -/
lemma add {d : VariableDecl} {slot : Slot} {new : List (ArrayType × Tag)} {t' : Tables}
    (h : Tables.Tracing origins procedure before tags done g t)
    (hdeclaring : before.Declaring names done t) (hscopes : t'.scopes = t.scopes)
    (harrays : t'.types.arrays = (new ++ g).map Prod.fst)
    (htags : new.map Prod.snd = d.type.tags (.variable procedure d.name))
    (hslot : slot.Traces origins procedure (new ++ g) d)
    (hnew : t'.binding? ⟨before.scopes.length⟩ d.name = none) :
    Tables.Tracing origins procedure before tags (done ++ [d]) (new ++ g)
      (t'.modifyScope ⟨before.scopes.length⟩ (·.add d.name (.var slot))) := by
  obtain ⟨symbols, hscope, -⟩ := hdeclaring.scope?_new
  have hexists : t'.HasScope ⟨before.scopes.length⟩ := by
    unfold Tables.HasScope
    rw [hscopes]
    exact Tables.hasScope_of_scope? hscope
  have hfresh : d.name ∉ done.map VariableDecl.name := by
    rwa [Tables.binding?_congr hscopes, hdeclaring.binding?_new] at hnew
  refine ⟨harrays, ?_, fun n id hid => ?_, fun x hx slot' hslot' => ?_⟩
  · unfold variableTags
    rw [List.map_append, htags, h.tags, List.reverse_append, List.reverse_singleton,
      List.singleton_append, List.flatMap_cons, List.append_assoc]
    rfl
  · obtain ⟨o, ho, horigin⟩ := h.names n id hid
    exact ⟨o, ho, originIn_append horigin new⟩
  · rw [hexists.binding?_add_eq_some hnew] at hslot'
    rcases List.mem_append.mp hx with hx | hx
    · rcases hslot' with hold | ⟨hname, -⟩
      · rw [Tables.binding?_congr hscopes] at hold
        exact (h.vars x hx slot' hold).append new
      · exact absurd (hname ▸ List.mem_map_of_mem hx) hfresh
    · rw [List.mem_singleton] at hx
      subst hx
      rcases hslot' with hold | ⟨-, heq⟩
      · rw [hnew] at hold
        cases hold
      · cases heq
        exact hslot

end Tables.Tracing

variable (hbefore : before.Holds names procedures) (hsees : before.Sees names [] .global)

include hbefore in
/-- A parameter that is declared has the origin that it should have. -/
lemma Parameter.declare_traces (p : Parameter) (hdeclaring : before.Declaring names done t)
    (h : Tables.Tracing origins procedure before tags done g t) :
    (p.declare ⟨before.scopes.length⟩).Ends t
      (fun slot t' => ∃ new, Tables.Tracing origins procedure before tags (done ++ [p.decl])
        (new ++ g) t' ∧ slot.Traces origins procedure (new ++ g) p.decl)
      fun _ _ => True := by
  unfold declare
  rw [Step.ends_bind]
  refine refuseMainName_ends.mono (fun _ t₁ h₁ => ?_) fun _ _ _ => trivial
  obtain ⟨rfl, -⟩ := h₁
  rw [Step.ends_bind]
  refine (p.type.resolve_traces (.variable procedure p.name) (h.traces hdeclaring hbefore)).mono
    (fun type t₂ h₂ => ?_) fun _ _ h => h
  obtain ⟨hscopes, new, harrays, htags, horigin⟩ := h₂
  rw [Step.ends_bind, Step.ends_get]
  split
  · trivial
  · rw [Step.ends_bind]
    refine declareName_ends.mono (fun _ t₃ h₃ => ?_) fun _ _ _ => trivial
    obtain ⟨hnew, rfl⟩ := h₃
    exact ⟨new, h.add (d := p.decl) hdeclaring hscopes harrays htags horigin hnew, horigin⟩

include hbefore in
/-- A local variable that is declared has the origin that it should have. -/
lemma LocalVar.declare_traces (v : LocalVar) (hdeclaring : before.Declaring names done t)
    (h : Tables.Tracing origins procedure before tags done g t) :
    (v.declare ⟨before.scopes.length⟩).Ends t
      (fun _ t' => ∃ new, Tables.Tracing origins procedure before tags (done ++ [v.decl])
        (new ++ g) t')
      fun _ _ => True := by
  unfold declare
  rw [Step.ends_bind]
  refine refuseMainName_ends.mono (fun _ t₁ h₁ => ?_) fun _ _ _ => trivial
  obtain ⟨rfl, -⟩ := h₁
  rw [Step.ends_bind]
  refine (v.type.resolve_traces (.variable procedure v.name) (h.traces hdeclaring hbefore)).mono
    (fun type t₂ h₂ => ?_) fun _ _ h => h
  obtain ⟨hscopes, new, harrays, htags, horigin⟩ := h₂
  refine declareName_ends.mono (fun _ t₃ h₃ => ?_) fun _ _ _ => trivial
  obtain ⟨hnew, rfl⟩ := h₃
  exact ⟨new, h.add (d := v.decl) hdeclaring hscopes harrays htags horigin hnew⟩

include hbefore hsees

/-- The parameters that are declared have the origins that they should have. -/
lemma Parameter.declareAll_traces (parameters : List Parameter)
    (hdeclaring : before.Declaring names [] t)
    (h : Tables.Tracing origins procedure before tags [] g t) :
    (parameters.mapM (Parameter.declare ⟨before.scopes.length⟩)).Ends t
      (fun slots t' => before.Declaring names (parameters.map Parameter.decl) t' ∧
        ∃ new, Tables.Tracing origins procedure before tags (parameters.map Parameter.decl)
          (new ++ g) t' ∧ List.Forall₂ (Slot.Traces origins procedure (new ++ g)) slots
            (parameters.map Parameter.decl))
      fun _ _ => True := by
  refine Step.ends_mapM (fun done slots t' => before.Declaring names (done.map Parameter.decl) t' ∧
    ∃ new, Tables.Tracing origins procedure before tags (done.map Parameter.decl) (new ++ g) t' ∧
      List.Forall₂ (Slot.Traces origins procedure (new ++ g)) slots (done.map Parameter.decl))
    parameters ⟨hdeclaring, [], h, .nil⟩ fun done p _ slots _ t₁ h₁ => ?_
  obtain ⟨hdone, new, htracing, hslots⟩ := h₁
  refine ((p.declare_ends hbefore hsees hdone).and
    (p.declare_traces hbefore hdone htracing)).mono (fun slot t₂ h₂ => ?_) fun _ _ _ => trivial
  obtain ⟨⟨-, hdeclaring₂, -⟩, new₂, htracing₂, hslot⟩ := h₂
  rw [List.map_append]
  refine ⟨hdeclaring₂, new₂ ++ new, ?_, ?_⟩
  · rw [List.append_assoc]
    exact htracing₂
  · rw [List.append_assoc]
    exact List.rel_append (hslots.imp fun _ _ hx => hx.append new₂) (.cons hslot .nil)

/-- The local variables that are declared have the origins that they should have. -/
lemma LocalVar.declareAll_traces (locals : List LocalVar)
    (hdeclaring : before.Declaring names done t)
    (h : Tables.Tracing origins procedure before tags done g t) :
    (locals.forM (LocalVar.declare ⟨before.scopes.length⟩)).Ends t
      (fun _ t' => before.Declaring names (done ++ locals.map LocalVar.decl) t' ∧
        ∃ new, Tables.Tracing origins procedure before tags (done ++ locals.map LocalVar.decl)
          (new ++ g) t')
      fun _ _ => True := by
  refine Step.ends_forM (fun above t' =>
    before.Declaring names (done ++ above.map LocalVar.decl) t' ∧
      ∃ new, Tables.Tracing origins procedure before tags (done ++ above.map LocalVar.decl)
        (new ++ g) t')
    locals ⟨by simpa using hdeclaring, [], by simpa using h⟩ fun above v _ _ t₁ h₁ => ?_
  obtain ⟨habove, new, htracing⟩ := h₁
  refine ((v.declare_ends hbefore hsees habove).and
    (v.declare_traces hbefore habove htracing)).mono (fun _ t₂ h₂ => ?_) fun _ _ _ => trivial
  obtain ⟨⟨-, hdeclaring₂, -⟩, new₂, htracing₂⟩ := h₂
  rw [List.map_append, ← List.append_assoc]
  refine ⟨hdeclaring₂, new₂ ++ new, ?_⟩
  rw [List.append_assoc new₂]
  exact htracing₂

end

/-! ### Declaring a program -/

/-- The tags of the arrays that types and procedures write, the last one first. -/
def tagsOf (types : List TypeDef) (procedures : List Procedure) : List Tag :=
  procedures.reverse.flatMap (fun q => variableTags q.name q.decls) ++
    types.reverse.flatMap fun d => d.type.tags (.type d.name)

/-- The tables in which types and procedures are declared have their types from where the text
says. -/
structure Tables.Traced (types : List TypeDef) (procedures : List Procedure)
    (g : List (ArrayType × Tag)) (t : Tables) : Prop where
  arrays : t.types.arrays = g.map Prod.fst
  tags : g.map Prod.snd = tagsOf types procedures
  names : ∀ n id, t.lookup .global n = some (.type id) →
    ∃ o, (typeOriginsFrom primitiveOrigins types).lookup n = some o ∧ originIn g id = some o
  slots : ∀ q ∈ procedures, ∀ e, t.binding? .global q.name = some (.procedure e) →
    List.Forall₂ (Slot.Traces (typeOriginsFrom primitiveOrigins types) q.name g) e.parameters
      (q.parameters.map Parameter.decl) ∧
    ∀ d ∈ q.decls, ∀ slot, t.binding? e.scope d.name = some (.var slot) →
      slot.Traces (typeOriginsFrom primitiveOrigins types) q.name g d

section
variable {types : List TypeDef}

/-- A type that is declared has the origin that its definition gives it. -/
lemma TypeDef.declare_traces (d : TypeDef) (hlists : t.Lists types [])
    (h : t.Traced types [] g) :
    d.declare.Ends t (fun _ t' => ∃ new, t'.Traced (types ++ [d]) [] (new ++ g))
      fun _ _ => True := by
  unfold declare
  rw [Step.ends_bind]
  refine refuseMainName_ends.mono (fun _ t₁ h₁ => ?_) fun _ _ _ => trivial
  obtain ⟨rfl, -⟩ := h₁
  rw [Step.ends_bind]
  refine (d.type.resolve_traces (.type d.name) ⟨h.arrays, h.names⟩).mono (fun type t₂ h₂ => ?_)
    fun _ _ h => h
  obtain ⟨hscopes, new, harrays, htags, o, ho, horigin⟩ := h₂
  refine declareName_ends.mono (fun _ t₃ h₃ => ?_) fun _ _ _ => trivial
  obtain ⟨hnew, rfl⟩ := h₃
  obtain ⟨global, hglobal⟩ := hlists.holds.outermost
  have hexists : t₂.HasScope .global := by
    unfold Tables.HasScope
    rw [hscopes]
    exact Tables.hasScope_of_scope? hglobal
  refine ⟨new, harrays, ?_, fun n id hid => ?_, fun _ hq => absurd hq List.not_mem_nil⟩
  · unfold tagsOf
    rw [List.map_append, htags, h.tags, List.reverse_append, List.reverse_singleton,
      List.singleton_append, List.flatMap_cons]
    rfl
  · rw [typeOriginsFrom_concat ho]
    rw [Tables.lookup_global, hexists.binding?_add_eq_some hnew] at hid
    rcases hid with hold | ⟨rfl, heq⟩
    · have hne : n ≠ d.name := by
        rintro rfl
        rw [hnew] at hold
        cases hold
      rw [Tables.binding?_congr hscopes, ← Tables.lookup_global] at hold
      obtain ⟨o', ho', horigin'⟩ := h.names n id hold
      refine ⟨o', ?_, originIn_append horigin' new⟩
      rw [List.lookup_cons, beq_eq_false_iff_ne.mpr hne]
      exact ho'
    · cases heq
      exact ⟨o, List.lookup_cons_self, horigin⟩

/-- The variables of a procedure that is declared have the origins that they should have. -/
lemma Procedure.declare_traces (q : Procedure) (hlists : before.Lists types procedures)
    (h : before.Traced types procedures g) :
    q.declare.Ends before (fun _ t' => ∃ new, t'.Traced types (procedures ++ [q]) (new ++ g))
      fun _ _ => True := by
  have hbefore := hlists.holds
  have hstart : Tables.Tracing (typeOriginsFrom primitiveOrigins types) q.name before
      (tagsOf types procedures) [] g (before.newScope .global).2 :=
    ⟨h.arrays, h.tags, h.names, fun _ hd => absurd hd List.not_mem_nil⟩
  unfold declare
  rw [Step.ends_bind, Step.ends_get, Step.ends_bind, Step.ends_set, Step.ends_bind]
  refine (Parameter.declareAll_traces hbefore hlists.sees q.parameters hbefore.declaring_nil
    hstart).mono (fun slots t₁ h₁ => ?_) fun _ _ h => h
  obtain ⟨hdeclaring₁, new₁, htracing₁, hslots⟩ := h₁
  rw [Step.ends_bind]
  refine (LocalVar.declareAll_traces hbefore hlists.sees q.locals hdeclaring₁ htracing₁).mono
    (fun _ t₂ h₂ => ?_) fun _ _ h => h
  obtain ⟨hdeclaring₂, new₂, htracing₂⟩ := h₂
  have hdeclaring : before.Declaring (typeNamesFrom primitiveNames types) q.decls t₂ := hdeclaring₂
  refine declareName_ends.mono (fun _ t₃ h₃ => ?_) fun _ _ _ => trivial
  obtain ⟨hnew, rfl⟩ := h₃
  obtain ⟨global, hglobal⟩ := hbefore.outermost
  have hexists : before.HasScope .global := Tables.hasScope_of_scope? hglobal
  have hexists₂ : t₂.HasScope .global :=
    Tables.hasScope_of_scope? ((hdeclaring.scope?_old hexists).trans hglobal)
  have hinside : (⟨before.scopes.length⟩ : ScopeId) ≠ .global := by
    intro heq
    rw [← heq] at hexists
    exact Nat.lt_irrefl _ hexists
  have hlocal : ∀ (id : ScopeId) (n : String) (entry : Entry), id ≠ .global →
      (t₂.modifyScope .global (·.add q.name entry)).binding? id n = t₂.binding? id n := by
    intro id n entry hid
    unfold Tables.binding?
    rw [Tables.scope_modifyScope_of_ne hid]
  refine ⟨new₂ ++ new₁, ?_, ?_, fun n id hid => ?_, fun q' hq' e he => ?_⟩
  · rw [List.append_assoc]
    exact htracing₂.arrays
  · rw [List.append_assoc, htracing₂.tags]
    unfold tagsOf
    rw [List.reverse_append, List.reverse_singleton, List.singleton_append, List.flatMap_cons,
      List.append_assoc]
    rfl
  · rw [Tables.lookup_global, hexists₂.binding?_add_eq_some hnew, hdeclaring.binding?_old hexists,
      ← Tables.lookup_global] at hid
    rcases hid with hold | ⟨-, heq⟩
    · obtain ⟨o, ho, horigin⟩ := h.names n id hold
      exact ⟨o, ho, originIn_append horigin _⟩
    · cases heq
  · rw [hexists₂.binding?_add_eq_some hnew, hdeclaring.binding?_old hexists] at he
    rw [hdeclaring.binding?_old hexists] at hnew
    rcases List.mem_append.mp hq' with hq' | hq'
    · rcases he with hold | ⟨hname, -⟩
      · obtain ⟨hparameters, hvars⟩ := h.slots q' hq' e hold
        obtain ⟨hne, hhas⟩ := hbefore.inside _ _ hold
        refine ⟨hparameters.imp fun _ _ hx => hx.append _, fun d hd slot hslot => ?_⟩
        rw [hlocal _ _ _ hne, hdeclaring.binding?_old hhas] at hslot
        exact (hvars d hd slot hslot).append _
      · obtain ⟨e', he'⟩ := hbefore.declared q' hq'
        have hbound := he'.bound
        rw [hname, hnew] at hbound
        cases hbound
    · rw [List.mem_singleton] at hq'
      subst hq'
      rcases he with hold | ⟨-, heq⟩
      · rw [hnew] at hold
        cases hold
      · cases heq
        refine ⟨?_, fun d hd slot hslot => ?_⟩
        · rw [List.append_assoc]
          exact hslots.imp fun _ _ hx => hx.append new₂
        · rw [List.append_assoc]
          exact htracing₂.vars d hd slot ((hlocal _ _ _ hinside).symm.trans hslot)

end

/-- In the predefined tables the primitive types come from where they should. -/
lemma Tables.predefined_traced : Tables.predefined.Traced [] [] [] := by
  refine ⟨by decide +kernel, rfl, fun n id hid => ?_, fun _ hq => absurd hq List.not_mem_nil⟩
  have hall : Tables.predefined.binding? .global "int" = some (.type .int) ∧
      Tables.predefined.binding? .global "bool" = some (.type .bool) := by
    decide +kernel
  rw [Tables.lookup_global] at hid
  obtain ⟨s, hs, -⟩ := Tables.predefined_holds.typeNames n id hid
  have hn : n = "int" ∨ n = "bool" := by
    have hmem := mem_of_lookup_typeNamesFrom (l := []) hs
    simpa [primitiveNames] using hmem
  rcases hn with rfl | rfl
  · rw [hall.1] at hid
    cases hid
    exact ⟨.int, rfl, rfl⟩
  · rw [hall.2] at hid
    cases hid
    exact ⟨.bool, rfl, rfl⟩

/-- The tables in which a program is declared list it, and its types come from where its text
says. -/
lemma Program.declare_traced (p : Program) :
    p.declare.Ends .predefined
      (fun _ t => t.Lists p.typeDefs p.procedures ∧ ∃ g, t.Traced p.typeDefs p.procedures g)
      fun _ _ => True := by
  unfold declare
  rw [Step.ends_bind]
  refine (Step.ends_forM (fun done t' => t'.Lists done [] ∧ ∃ g, t'.Traced done [] g) p.typeDefs
    ⟨Tables.predefined_lists, [], Tables.predefined_traced⟩ fun done d _ _ t₁ h₁ => ?_).mono
    (fun _ t₁ h₁ => ?_) fun _ _ h => h
  · obtain ⟨hlists, g, htraced⟩ := h₁
    refine ((d.declare_ends hlists).and (d.declare_traces hlists htraced)).mono
      (fun _ t₂ h₂ => ?_) fun _ _ _ => trivial
    obtain ⟨⟨-, hlists₂⟩, new, htraced₂⟩ := h₂
    exact ⟨hlists₂, _, htraced₂⟩
  · refine Step.ends_forM (fun done t' => t'.Lists p.typeDefs done ∧
      ∃ g, t'.Traced p.typeDefs done g) p.procedures h₁ fun done q _ _ t₂ h₂ => ?_
    obtain ⟨hlists, g, htraced⟩ := h₂
    refine ((q.declare_ends hlists).and (q.declare_traces hlists htraced)).mono
      (fun _ t₃ h₃ => ?_) fun _ _ _ => trivial
    obtain ⟨⟨-, hlists₃⟩, new, htraced₃⟩ := h₃
    exact ⟨hlists₃, _, htraced₃⟩

/-! ### Different tags -/

/-- The procedure in which a tag is, if it is in one. -/
def Tag.procedure? (tag : Tag) : Option String :=
  match tag.site with
  | .type _ => none
  | .variable procedure _ => some procedure

/-- The tags of a procedure's variables tell the procedure. -/
lemma procedure?_of_mem_variableTags {l : List VariableDecl} {tag : Tag}
    (h : tag ∈ variableTags procedure l) : tag.procedure? = some procedure := by
  obtain ⟨d, -, hd⟩ := List.mem_flatMap.mp h
  unfold Tag.procedure?
  rw [(TypeExpr.mem_tags hd).1]

/-- The arrays in the declarations of variables with different names have different tags. -/
lemma nodup_variableTags {l : List VariableDecl} (h : (l.map VariableDecl.name).Nodup) :
    (variableTags procedure l).Nodup := by
  refine nodup_flatMap_of_key (fun d : VariableDecl => Site.variable procedure d.name)
    Tag.site ?_ (fun d _ => d.type.nodup_tags) fun d _ tag htag => (TypeExpr.mem_tags htag).1
  rw [List.map_reverse, List.nodup_reverse]
  have hsites := h.map (f := Site.variable procedure) fun _ _ heq => by cases heq; rfl
  rwa [List.map_map] at hsites

/-- The arrays of a program have different tags if its names are different. -/
lemma nodup_tagsOf {types : List TypeDef} (htypes : (types.map TypeDef.name).Nodup)
    (hprocedures : (procedures.map Procedure.name).Nodup)
    (hdecls : ∀ q ∈ procedures, (q.decls.map VariableDecl.name).Nodup) :
    (tagsOf types procedures).Nodup := by
  unfold tagsOf
  rw [List.nodup_append]
  refine ⟨?_, ?_, fun tag htag tag' htag' heq => ?_⟩
  · refine nodup_flatMap_of_key (fun q : Procedure => some q.name) Tag.procedure?
      ?_ (fun q hq => nodup_variableTags (hdecls q (List.mem_reverse.mp hq)))
      fun q _ tag htag => procedure?_of_mem_variableTags htag
    rw [List.map_reverse, List.nodup_reverse]
    have hnames := hprocedures.map (f := some) fun _ _ heq => Option.some.inj heq
    rwa [List.map_map] at hnames
  · refine nodup_flatMap_of_key (fun d : TypeDef => Site.type d.name) Tag.site ?_
      (fun d _ => d.type.nodup_tags) fun d _ tag htag => (TypeExpr.mem_tags htag).1
    rw [List.map_reverse, List.nodup_reverse]
    have hsites := htypes.map (f := Site.type) fun _ _ heq => by cases heq; rfl
    rwa [List.map_map] at hsites
  · obtain ⟨q, -, hq⟩ := List.mem_flatMap.mp htag
    obtain ⟨d, -, hd⟩ := List.mem_flatMap.mp htag'
    have hprocedure := procedure?_of_mem_variableTags hq
    unfold Tag.procedure? at hprocedure
    rw [heq, (TypeExpr.mem_tags hd).1] at hprocedure
    cases hprocedure

/-- In the tables in which a program is declared the arrays have different tags. -/
lemma Tables.Traced.nodup {types : List TypeDef} (h : t.Traced types procedures g)
    (hlists : t.Lists types procedures) : (g.map Prod.snd).Nodup := by
  have hnodup := hlists.nodup
  unfold globalNames at hnodup
  obtain ⟨hfirst, hprocedures, -⟩ := List.nodup_append.mp hnodup
  obtain ⟨-, htypes, -⟩ := List.nodup_append.mp hfirst
  rw [h.tags]
  refine nodup_tagsOf htypes hprocedures fun q hq => ?_
  obtain ⟨e, he⟩ := hlists.holds.declared q hq
  exact he.nodup

/-- In the tables in which a program is declared no two handles have the same origin. -/
lemma Tables.Traced.injective {types : List TypeDef} (h : t.Traced types procedures g)
    (hlists : t.Lists types procedures) {id id' : TypeId} {o : Origin}
    (hid : originIn g id = some o) (hid' : originIn g id' = some o) : id = id' :=
  originIn_injective (h.nodup hlists) hid hid'

end TreeCompiler
