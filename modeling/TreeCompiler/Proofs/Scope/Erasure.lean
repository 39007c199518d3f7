import TreeCompiler.Proofs.Scope.Declared
import TreeCompiler.Proofs.Typing.System

/-!
# Tables up to where things lie

Laying out frames fills in the offsets of variables and the sizes of frames.  Erasing these shows
what stays the same meanwhile: tables with the same erasure bind the same names to entries with the
same erasure, belong to the same programs and give the same types.
-/

namespace TreeCompiler

/-! ### Erasure -/

/-- The slot without the place of its variable. -/
def Slot.erase (s : Slot) : Slot := { s with offset := none }

/-- The entry of a procedure without the layout of its frame. -/
def ProcedureEntry.erase (e : ProcedureEntry) : ProcedureEntry :=
  { e with parameters := e.parameters.map Slot.erase, layout := {} }

/-- The entry without places and layouts. -/
def Entry.erase : Entry → Entry
  | .type id => .type id
  | .var slot => .var slot.erase
  | .procedure e => .procedure e.erase

/-- The symbol without places and layouts. -/
def Symbol.erase (x : Symbol) : Symbol := { x with entry := x.entry.erase }

/-- The scope without places and layouts. -/
def Scope.erase (s : Scope) : Scope := { s with symbols := s.symbols.map Symbol.erase }

/-- The tables without places and layouts. -/
def Tables.erase (t : Tables) : Tables := ⟨t.types, t.scopes.map Scope.erase⟩

/-- A variable comes from a variable. -/
lemma Entry.erase_eq_var {e : Entry} {slot : Slot} (h : e.erase = .var slot) :
    ∃ slot', e = .var slot' ∧ slot'.erase = slot := by
  cases e with
  | var slot' =>
    cases h
    exact ⟨slot', rfl, rfl⟩
  | type => cases h
  | procedure => cases h

/-- A procedure comes from a procedure. -/
lemma Entry.erase_eq_procedure {e : Entry} {p : ProcedureEntry} (h : e.erase = .procedure p) :
    ∃ p', e = .procedure p' ∧ p'.erase = p := by
  cases e with
  | procedure p' =>
    cases h
    exact ⟨p', rfl, rfl⟩
  | type => cases h
  | var => cases h

/-- A type comes from the same type. -/
lemma Entry.erase_eq_type {e : Entry} {id : TypeId} (h : e.erase = .type id) : e = .type id := by
  cases e with
  | type => exact h
  | procedure => cases h
  | var => cases h

/-! ### What entries with the same erasure share -/

lemma Slot.type_eq_of_erase {s s' : Slot} (h : s.erase = s'.erase) : s.type = s'.type := by
  have hfield := congrArg Slot.type h
  exact hfield

lemma Slot.isReference_eq_of_erase {s s' : Slot} (h : s.erase = s'.erase) :
    s.isReference = s'.isReference := by
  have hfield := congrArg Slot.isReference h
  exact hfield

lemma ProcedureEntry.scope_eq_of_erase {e e' : ProcedureEntry} (h : e.erase = e'.erase) :
    e.scope = e'.scope := by
  have hfield := congrArg ProcedureEntry.scope h
  exact hfield

lemma ProcedureEntry.isPredefined_eq_of_erase {e e' : ProcedureEntry} (h : e.erase = e'.erase) :
    e.isPredefined = e'.isPredefined := by
  have hfield := congrArg ProcedureEntry.isPredefined h
  exact hfield

lemma ProcedureEntry.parameters_eq_of_erase {e e' : ProcedureEntry} (h : e.erase = e'.erase) :
    e.parameters.map Slot.erase = e'.parameters.map Slot.erase := by
  have hfield := congrArg ProcedureEntry.parameters h
  exact hfield

/-! ### Looking up names -/

variable {t t' : Tables} {id : ScopeId} {name n : String} {f : Entry → Entry}

/-- A scope binds the same names after erasure. -/
lemma Scope.find?_erase (s : Scope) : s.erase.find? n = (s.find? n).map Entry.erase := by
  unfold Scope.find? Scope.erase
  rw [List.find?_map, Option.map_map, Option.map_map]
  rfl

/-- Changing what a name is bound to in a way that erasure hides changes nothing else. -/
lemma Scope.erase_modify {s : Scope}
    (hf : ∀ e, s.find? name = some e → (f e).erase = e.erase) :
    (s.modify name f).erase = s.erase := by
  obtain ⟨parent, symbols⟩ := s
  unfold Scope.find? at hf
  unfold Scope.erase Scope.modify
  dsimp only at *
  congr 1
  induction symbols with
  | nil => rfl
  | cons x rest ih =>
    rw [Scope.modifySymbol]
    split
    · rename_i hx
      rw [List.map_cons, List.map_cons, Symbol.erase, Symbol.erase, hf x.entry (by simp [hx])]
    · rename_i hx
      rw [List.map_cons, List.map_cons, ih]
      intro e he
      apply hf
      rw [List.find?_cons_of_neg (by exact hx)]
      exact he

namespace Tables

/-- The types stay. -/
@[simp] lemma types_erase : t.erase.types = t.types := rfl

/-- The scopes stay, without places and layouts. -/
lemma scope?_erase : t.erase.scope? id = (t.scope? id).map Scope.erase := List.getElem?_map

/-- The bindings stay, without places and layouts. -/
lemma binding?_erase : t.erase.binding? id n = (t.binding? id n).map Entry.erase := by
  unfold binding? scope
  rw [scope?_erase]
  cases t.scope? id with
  | none => rfl
  | some s => exact Scope.find?_erase s

/-- The procedures stay, without places and layouts. -/
lemma procedure?_erase : t.erase.procedure? n = (t.procedure? n).map ProcedureEntry.erase := by
  have hbound : t.erase.binding? .global n = (t.binding? .global n).map Entry.erase := binding?_erase
  unfold binding? at hbound
  unfold procedure?
  rw [hbound]
  cases (t.scope .global).find? n with
  | none => rfl
  | some entry => cases entry <;> rfl

/-- A name means the same after erasure, without places and layouts. -/
lemma lookup_erase : t.erase.lookup id n = (t.lookup id n).map Entry.erase := by
  have hchain : ∀ k j, t.erase.chainUpTo k j = (t.chainUpTo k j).map Scope.erase := by
    intro k
    induction k with
    | zero => exact fun _ => rfl
    | succ k ih =>
      intro j
      unfold chainUpTo
      rw [scope?_erase]
      cases hs : t.scope? j with
      | none => rfl
      | some s =>
        obtain ⟨parent, symbols⟩ := s
        cases parent with
        | none => rfl
        | some parent =>
          dsimp only [Option.map_some, Scope.erase]
          rw [ih, List.map_cons]
          rfl
  unfold lookup chain
  rw [hchain, List.findSome?_map, List.map_findSome?]
  congr 1
  funext s
  exact Scope.find?_erase s

/-! ### Changes that erasure hides -/

/-- Changing an entry in a way that erasure hides changes nothing but what is erased. -/
lemma erase_modifyEntry (hf : ∀ e, t.binding? id name = some e → (f e).erase = e.erase) :
    (t.modifyEntry id name f).erase = t.erase := by
  unfold erase modifyEntry modifyScope
  congr 1
  apply List.ext_getElem?
  intro i
  rw [List.getElem?_map, List.getElem?_map, List.getElem?_modify]
  by_cases hi : id.index = i
  · subst hi
    cases hs : t.scopes[id.index]? with
    | none => rfl
    | some s =>
      have hscope : t.scope id = s := scope_of_scope? hs
      have hsame := Scope.erase_modify fun e he => hf e (by unfold binding?; rwa [hscope])
      simp only [if_true, Option.map_eq_map, Option.map_some, hsame]
  · simp only [hi, if_false, Option.map_eq_map, Option.map_id']

/-- Erasure hides where a variable lies. -/
@[simp] lemma erase_setOffset {offset : Int} : (t.setOffset id name offset).erase = t.erase := by
  refine erase_modifyEntry fun e _ => ?_
  cases e <;> rfl

/-- Erasure hides the layout of a procedure. -/
lemma erase_modifyProcedure {g : ProcedureEntry → ProcedureEntry}
    (hg : ∀ p, t.binding? .global name = some (.procedure p) → (g p).erase = p.erase) :
    (t.modifyProcedure name g).erase = t.erase := by
  refine erase_modifyEntry fun e he => ?_
  cases e with
  | procedure p => exact congrArg Entry.procedure (hg p he)
  | type => rfl
  | var => rfl

/-! ### Tables with the same erasure -/

section
variable (h : t.erase = t'.erase)
include h

/-- The types are the same. -/
lemma types_eq_of_erase : t.types = t'.types := by
  rw [← types_erase, h, types_erase]

/-- A scope is found in both or in none. -/
lemma scope?_of_erase {s' : Scope} (hs : t'.scope? id = some s') :
    ∃ s, t.scope? id = some s ∧ s.erase = s'.erase := by
  have heq : (t.scope? id).map Scope.erase = some s'.erase := by
    rw [← scope?_erase, h, scope?_erase, hs]
    rfl
  exact Option.map_eq_some_iff.mp heq

/-- A name is bound to entries with the same erasure. -/
lemma binding?_of_erase {e' : Entry} (he : t'.binding? id n = some e') :
    ∃ e, t.binding? id n = some e ∧ e.erase = e'.erase := by
  have heq : (t.binding? id n).map Entry.erase = some e'.erase := by
    rw [← binding?_erase, h, binding?_erase, he]
    rfl
  exact Option.map_eq_some_iff.mp heq

/-- A name means entries with the same erasure. -/
lemma lookup_of_erase {e' : Entry} (he : t'.lookup id n = some e') :
    ∃ e, t.lookup id n = some e ∧ e.erase = e'.erase := by
  have heq : (t.lookup id n).map Entry.erase = some e'.erase := by
    rw [← lookup_erase, h, lookup_erase, he]
    rfl
  exact Option.map_eq_some_iff.mp heq

/-- A procedure takes the same number of parameters. -/
lemma length_parameters_of_erase : (t.procedure? n).map (fun e => e.parameters.length) =
    (t'.procedure? n).map fun e => e.parameters.length := by
  have hsame : ∀ t : Tables, (t.procedure? n).map (fun e => e.parameters.length) =
      (t.erase.procedure? n).map fun e => e.parameters.length := by
    intro t
    rw [procedure?_erase, Option.map_map]
    congr 1
    funext e
    exact (List.length_map Slot.erase).symm
  rw [hsame, h, ← hsame]

/-- A procedure is bound to entries with the same erasure. -/
lemma binding?_procedure_of_erase {e' : ProcedureEntry}
    (he : t'.binding? id n = some (.procedure e')) :
    ∃ e, t.binding? id n = some (.procedure e) ∧ e.erase = e'.erase := by
  obtain ⟨x, hx, hxe⟩ := binding?_of_erase h he
  obtain ⟨e, rfl, he⟩ := Entry.erase_eq_procedure hxe
  exact ⟨e, hx, he⟩

end

end Tables

/-! ### What erasure leaves open -/

/-- Slots with the same erasure are the same if their offsets are. -/
lemma Slot.eq_of_erase {s s' : Slot} (h : s'.erase = s.erase) (hoffset : s'.offset = s.offset) :
    s' = s := by
  cases s
  cases s'
  cases h
  cases hoffset
  rfl

/-- Lists of slots with the same erasure are the same if their offsets are. -/
lemma Slot.map_eq_of_erase {l l' : List Slot} (h : l'.map Slot.erase = l.map Slot.erase)
    (hoffsets : l'.map Slot.offset = l.map Slot.offset) : l' = l := by
  induction l generalizing l' with
  | nil => exact List.map_eq_nil_iff.mp h
  | cons s rest ih =>
    obtain ⟨s', rest', rfl, hs, hrest⟩ := List.map_eq_cons_iff.mp h
    rw [List.map_cons, List.map_cons, List.cons.injEq] at hoffsets
    rw [Slot.eq_of_erase hs hoffsets.1, ih hrest hoffsets.2]

/-- Entries of procedures with the same erasure are the same if the layouts and the offsets of the
parameters are. -/
lemma ProcedureEntry.eq_of_erase {e e' : ProcedureEntry} (h : e'.erase = e.erase)
    (hlayout : e'.layout = e.layout)
    (hoffsets : e'.parameters.map Slot.offset = e.parameters.map Slot.offset) : e' = e := by
  have hscope := ProcedureEntry.scope_eq_of_erase h
  have hpredefined := ProcedureEntry.isPredefined_eq_of_erase h
  have hparameters := Slot.map_eq_of_erase (ProcedureEntry.parameters_eq_of_erase h) hoffsets
  cases e
  cases e'
  cases hscope
  cases hpredefined
  cases hparameters
  cases hlayout
  rfl

/-- Scopes with the same erasure are the same if they bind every name to the same entry. -/
lemma Scope.eq_of_erase {s s' : Scope} (h : s'.erase = s.erase) (hnodup : s.names.Nodup)
    (hfind : ∀ n, s'.find? n = s.find? n) : s' = s := by
  have hparent : s'.parent = s.parent := by
    have hfield := congrArg Scope.parent h
    exact hfield
  have hsymbols : s'.symbols.map Symbol.erase = s.symbols.map Symbol.erase := by
    have hfield := congrArg Scope.symbols h
    exact hfield
  have hnames : s'.names = s.names := by
    have hmap := congrArg (List.map Symbol.name) hsymbols
    rwa [List.map_map, List.map_map] at hmap
  have hsame : s'.symbols = s.symbols := by
    apply List.ext_getElem?
    intro k
    have hk := congrArg (·[k]?) hsymbols
    simp only [List.getElem?_map] at hk
    cases hx : s.symbols[k]? with
    | none =>
      rw [hx, Option.map_none, Option.map_eq_none_iff] at hk
      exact hk
    | some x =>
      rw [hx, Option.map_some, Option.map_eq_some_iff] at hk
      obtain ⟨x', hx', herase⟩ := hk
      have hname : x'.name = x.name := by
        have hfield := congrArg Symbol.name herase
        exact hfield
      -- no name is bound twice, so that both symbols are what their name is bound to
      have hentry := Scope.find?_of_mem hnodup (List.mem_of_getElem? hx)
      have hentry' := Scope.find?_of_mem (hnames ▸ hnodup) (List.mem_of_getElem? hx')
      rw [hname, hfind, hentry, Option.some.injEq] at hentry'
      rw [hx']
      cases x
      cases x'
      cases hname
      cases hentry'
      rfl
  cases s
  cases s'
  cases hparent
  cases hsame
  rfl

namespace Tables

/-- A name is bound to the same entry if entries with the same erasure that it is bound to are the
same. -/
lemma binding?_eq_of_erase (h : t'.erase = t.erase)
    (hentry : ∀ e e', t.binding? id n = some e → t'.binding? id n = some e' →
      e'.erase = e.erase → e' = e) : t'.binding? id n = t.binding? id n := by
  cases he : t.binding? id n with
  | some e =>
    obtain ⟨e', he', herase⟩ := binding?_of_erase h he
    rw [he', hentry e e' he he' herase]
  | none =>
    cases he' : t'.binding? id n with
    | none => rfl
    | some e' =>
      obtain ⟨e, hsome, -⟩ := binding?_of_erase h.symm he'
      rw [he] at hsome
      cases hsome

/-- A scope is the same if it binds every name to the same entry. -/
lemma scope?_eq_of_erase (h : t'.erase = t.erase) (hnodup : (t.scope id).names.Nodup)
    (hbinding : ∀ n, t'.binding? id n = t.binding? id n) : t'.scope? id = t.scope? id := by
  cases hs : t.scope? id with
  | some s =>
    obtain ⟨s', hs', herase⟩ := scope?_of_erase h hs
    have hfind : ∀ n, s'.find? n = s.find? n := by
      intro n
      have hn := hbinding n
      unfold binding? at hn
      rwa [scope_of_scope? hs, scope_of_scope? hs'] at hn
    rw [scope_of_scope? hs] at hnodup
    rw [hs', Scope.eq_of_erase herase hnodup hfind]
  | none =>
    cases hs' : t'.scope? id with
    | none => rfl
    | some s' =>
      obtain ⟨s, hsome, -⟩ := scope?_of_erase h.symm hs'
      rw [hs] at hsome
      cases hsome

/-- Tables with the same erasure are the same if all of their scopes are. -/
lemma eq_of_erase (h : t'.erase = t.erase) (hscope : ∀ id, t'.scope? id = t.scope? id) : t' = t := by
  have htypes := types_eq_of_erase h
  have hscopes : t'.scopes = t.scopes := List.ext_getElem? fun k => hscope ⟨k⟩
  cases t
  cases t'
  cases htypes
  cases hscopes
  rfl

/-- A scope binds the same names, in the same order. -/
lemma names_of_erase (h : t'.erase = t.erase) : (t'.scope id).names = (t.scope id).names := by
  have hsame : ∀ t : Tables, (t.erase.scope id).names = (t.scope id).names := by
    intro t
    unfold scope
    rw [scope?_erase]
    cases t.scope? id with
    | none => rfl
    | some s => exact List.map_map
  rw [← hsame t', h, hsame]

end Tables

/-! ### Belonging to a program -/

section
variable {names : List (String × ValueShape)} {types : TypeTable}

/-- Whether a slot holds what is declared has nothing to do with where it lies. -/
lemma Slot.holds_of_erase {slot slot' : Slot} {d : VariableDecl} (h : slot.erase = slot'.erase)
    (hslot : slot.Holds names types d) : slot'.Holds names types d := by
  cases slot
  cases slot'
  cases h
  exact hslot

/-- Slots that hold what is declared still do so at other places. -/
lemma Slot.forall₂_holds_of_erase {l l' : List Slot} {ds : List VariableDecl}
    (h : l.map Slot.erase = l'.map Slot.erase) (hl : List.Forall₂ (Slot.Holds names types) l ds) :
    List.Forall₂ (Slot.Holds names types) l' ds := by
  induction hl generalizing l' with
  | nil =>
    rw [List.map_nil, eq_comm, List.map_eq_nil_iff] at h
    rw [h]
    exact .nil
  | cons hslot _ ih =>
    obtain ⟨slot', rest', rfl, hslot', hrest'⟩ := List.map_eq_cons_iff.mp h.symm
    exact .cons (Slot.holds_of_erase hslot'.symm hslot) (ih hrest'.symm)

/-- Symbols that declare variables still do so at other places. -/
lemma Symbol.forall₂_declares_of_erase {l l' : List Symbol} {ds : List VariableDecl}
    (h : l.map Symbol.erase = l'.map Symbol.erase)
    (hl : List.Forall₂ (Symbol.Declares names types) l ds) :
    List.Forall₂ (Symbol.Declares names types) l' ds := by
  induction hl generalizing l' with
  | nil =>
    rw [List.map_nil, eq_comm, List.map_eq_nil_iff] at h
    rw [h]
    exact .nil
  | @cons x d _ _ hx _ ih =>
    obtain ⟨x', rest', rfl, hx', hrest'⟩ := List.map_eq_cons_iff.mp h.symm
    refine .cons ?_ (ih hrest'.symm)
    obtain ⟨hname, slot, hentry, hslot⟩ := hx
    have herase : x'.entry.erase = .var slot.erase := by
      have hfield := congrArg Symbol.entry hx'
      rw [Symbol.erase, Symbol.erase, hentry] at hfield
      exact hfield
    obtain ⟨slot', hentry', hslot'⟩ := Entry.erase_eq_var herase
    have hname' := congrArg Symbol.name hx'
    exact ⟨Eq.trans hname' hname, slot', hentry', Slot.holds_of_erase hslot'.symm hslot⟩

/-- A procedure is declared in tables with the same erasure. -/
lemma Tables.Declares.of_erase (h : t.erase = t'.erase) {q : Procedure} {e : ProcedureEntry}
    (he : t.Declares names q e) : ∃ e', e'.erase = e.erase ∧ t'.Declares names q e' := by
  obtain ⟨e', hbound, herase⟩ := Tables.binding?_procedure_of_erase h.symm he.bound
  obtain ⟨symbols, hscope, hsymbols⟩ := he.symbols
  obtain ⟨s', hs', hs⟩ := Tables.scope?_of_erase h.symm hscope
  have hscope' : e'.scope = e.scope := ProcedureEntry.scope_eq_of_erase herase
  have htypes : t.types = t'.types := Tables.types_eq_of_erase h
  refine ⟨e', herase, hbound, ?_, ⟨s'.symbols, ?_, ?_⟩, he.nodup, ?_, he.scalar⟩
  · rw [← he.isPredefined]
    exact ProcedureEntry.isPredefined_eq_of_erase herase
  · have hparent : s'.erase.parent = some .global := by rw [hs]; rfl
    rw [hscope', hs', ← hparent]
    rfl
  · have hsame : s'.erase.symbols = symbols.map Symbol.erase := by rw [hs]; rfl
    rw [← htypes]
    exact Symbol.forall₂_declares_of_erase hsame.symm hsymbols
  · rw [← htypes]
    exact Slot.forall₂_holds_of_erase (ProcedureEntry.parameters_eq_of_erase herase).symm he.parameters

/-- A runtime procedure is declared in tables with the same erasure. -/
lemma Tables.DeclaresRuntime.of_erase (h : t.erase = t'.erase) {r : RuntimeProcedure}
    {e : ProcedureEntry} (he : t.DeclaresRuntime r e) :
    ∃ e', e'.erase = e.erase ∧ t'.DeclaresRuntime r e' := by
  obtain ⟨hbound, hpredefined, hparameters⟩ := he
  obtain ⟨e', hbound', herase⟩ := Tables.binding?_procedure_of_erase h.symm hbound
  refine ⟨e', herase, hbound', ?_, ?_⟩
  · rw [← hpredefined]
    exact ProcedureEntry.isPredefined_eq_of_erase herase
  · have hsame : e'.parameters.map Slot.erase = e.parameters.map Slot.erase :=
      ProcedureEntry.parameters_eq_of_erase herase
    have hmap : List.Forall₂ (fun slot b => slot.type = TypeId.int ∧ slot.isReference = b)
        (e'.parameters.map Slot.erase) r.references := by
      rw [hsame, List.forall₂_map_left_iff]
      exact hparameters
    rw [List.forall₂_map_left_iff] at hmap
    exact hmap

/-- Tables with the same erasure hold the same types and procedures. -/
lemma Tables.Holds.of_erase {procedures : List Procedure} (h : t.erase = t'.erase)
    (ht : t.Holds names procedures) : t'.Holds names procedures := by
  have htypes : t.types = t'.types := Tables.types_eq_of_erase h
  refine { wellFormed := htypes ▸ ht.wellFormed, outermost := ?outermost,
           typeNames := ?typeNames, noVariable := ?noVariable, runtime := ?runtime,
           declared := ?declared, origin := ?origin, inside := ?inside, separate := ?separate,
           nodup := ht.nodup }
  case outermost =>
    obtain ⟨symbols, hsymbols⟩ := ht.outermost
    obtain ⟨⟨parent, symbols'⟩, hs', hs⟩ := Tables.scope?_of_erase h.symm hsymbols
    have hparent := congrArg Scope.parent hs
    change parent = none at hparent
    subst hparent
    exact ⟨symbols', hs'⟩
  case typeNames =>
    intro n id hid
    obtain ⟨e, he, herase⟩ := Tables.binding?_of_erase h hid
    cases Entry.erase_eq_type herase
    rw [← htypes]
    exact ht.typeNames n id he
  case noVariable =>
    intro n slot hslot
    obtain ⟨e, he, herase⟩ := Tables.binding?_of_erase h hslot
    obtain ⟨slot', rfl, -⟩ := Entry.erase_eq_var herase
    exact ht.noVariable n slot' he
  case runtime =>
    intro r hr
    obtain ⟨e, he⟩ := ht.runtime r hr
    obtain ⟨e', -, he'⟩ := he.of_erase h
    exact ⟨e', he'⟩
  case declared =>
    intro q hq
    obtain ⟨e, he⟩ := ht.declared q hq
    obtain ⟨e', -, he'⟩ := he.of_erase h
    exact ⟨e', he'⟩
  case origin =>
    intro n e he
    obtain ⟨e', he', -⟩ := Tables.binding?_procedure_of_erase h he
    exact ht.origin n e' he'
  case inside =>
    intro n e he
    obtain ⟨e', he', herase⟩ := Tables.binding?_procedure_of_erase h he
    obtain ⟨hne, hhas⟩ := ht.inside n e' he'
    have hscope : e'.scope = e.scope := ProcedureEntry.scope_eq_of_erase herase
    rw [hscope] at hne hhas
    obtain ⟨s, hs, -⟩ := Tables.scope?_of_erase h.symm hhas.scope?_eq
    exact ⟨hne, Tables.hasScope_of_scope? hs⟩
  case separate =>
    intro n₁ n₂ e₁ e₂ he₁ he₂ heq
    obtain ⟨e₁', he₁', herase₁⟩ := Tables.binding?_procedure_of_erase h he₁
    obtain ⟨e₂', he₂', herase₂⟩ := Tables.binding?_procedure_of_erase h he₂
    have hscope₁ : e₁'.scope = e₁.scope := ProcedureEntry.scope_eq_of_erase herase₁
    have hscope₂ : e₂'.scope = e₂.scope := ProcedureEntry.scope_eq_of_erase herase₂
    exact ht.separate n₁ n₂ e₁' e₂' he₁' he₂' (by rw [hscope₁, hscope₂, heq])

end

/-! ### Typing -/

section
variable {scope : ScopeId}

mutual

/-- The type of a variable has nothing to do with where variables lie. -/
lemma Variable.HasType.of_erase (h : t.erase = t'.erase) {v : Variable} {type : TypeId}
    (hv : v.HasType t scope type) : v.HasType t' scope type := by
  match v, hv with
  | .named _ _, @Variable.HasType.named _ _ _ _ slot hslot =>
    obtain ⟨e, he, herase⟩ := Tables.lookup_of_erase h.symm hslot
    obtain ⟨slot', rfl, hslot'⟩ := Entry.erase_eq_var herase
    have htype : slot'.type = slot.type := Slot.type_eq_of_erase hslot'
    rw [← htype]
    exact .named he
  | .element _ _ _, .element harray hinfo hindex =>
    rw [Tables.types_eq_of_erase h] at hinfo
    exact .element (harray.of_erase h) hinfo (hindex.of_erase h)

/-- The type of an expression has nothing to do with where variables lie. -/
lemma Expr.HasType.of_erase (h : t.erase = t'.erase) {e : Expr} {type : TypeId}
    (he : e.HasType t scope type) : e.HasType t' scope type := by
  match e, he with
  | .int _ _, .int => exact .int
  | .bool _ _, .bool => exact .bool
  | .read _ _, .read hsource => exact .read (hsource.of_erase h)
  | .negate _ _, .negate hoperand => exact .negate (hoperand.of_erase h)
  | .binary _ _ _ _, .arithmetic hop hleft hright =>
    exact .arithmetic hop (hleft.of_erase h) (hright.of_erase h)
  | .binary _ _ _ _, .comparison hop hleft hright =>
    exact .comparison hop (hleft.of_erase h) (hright.of_erase h)

end

/-- Arguments fit parameters that lie elsewhere. -/
lemma Slot.forall₂_accepts_of_erase (h : t.erase = t'.erase) {l l' : List Slot}
    {arguments : List Expr} (hl : l.map Slot.erase = l'.map Slot.erase)
    (haccepts : List.Forall₂ (Slot.Accepts t scope) l arguments) :
    List.Forall₂ (Slot.Accepts t' scope) l' arguments := by
  induction haccepts generalizing l' with
  | nil =>
    rw [List.map_nil, eq_comm, List.map_eq_nil_iff] at hl
    rw [hl]
    exact .nil
  | @cons slot argument _ _ hslot _ ih =>
    obtain ⟨slot', rest', rfl, hslot', hrest'⟩ := List.map_eq_cons_iff.mp hl.symm
    refine .cons ?_ (ih hrest'.symm)
    obtain ⟨htype, href⟩ := hslot
    have htype' : slot'.type = slot.type := Slot.type_eq_of_erase hslot'
    have href' : slot'.isReference = slot.isReference := Slot.isReference_eq_of_erase hslot'
    exact ⟨htype' ▸ htype.of_erase h, href' ▸ href⟩

/-- Whether a statement obeys the rules has nothing to do with where variables lie. -/
lemma Stmt.WellTyped.of_erase (h : t.erase = t'.erase) {s : Stmt} (hs : s.WellTyped t scope) :
    s.WellTyped t' scope := by
  induction hs with
  | empty => exact .empty
  | block _ ih => exact .block ih
  | assign htarget hvalue => exact .assign (htarget.of_erase h) (hvalue.of_erase h)
  | ifThen htest _ ih => exact .ifThen (htest.of_erase h) ih
  | ifThenElse htest _ _ ihThen ihElse => exact .ifThenElse (htest.of_erase h) ihThen ihElse
  | loop htest _ ih => exact .loop (htest.of_erase h) ih
  | call hcallee harguments =>
    obtain ⟨e, he, herase⟩ := Tables.lookup_of_erase h.symm hcallee
    obtain ⟨entry', rfl, hentry'⟩ := Entry.erase_eq_procedure herase
    have hparameters := ProcedureEntry.parameters_eq_of_erase hentry'
    exact .call he (Slot.forall₂_accepts_of_erase h hparameters.symm harguments)

/-- Whether the body of a procedure obeys the rules has nothing to do with where variables lie. -/
lemma Procedure.WellTyped.of_erase {q : Procedure} (h : q.WellTyped t)
    (herase : t.erase = t'.erase) : q.WellTyped t' := by
  obtain ⟨entry, hentry, hbody⟩ := h
  obtain ⟨entry', hentry', heq⟩ :=
    Tables.binding?_procedure_of_erase herase.symm (Tables.procedure?_eq_some.mp hentry)
  refine ⟨entry', Tables.procedure?_eq_some.mpr hentry', fun s hs => ?_⟩
  rw [ProcedureEntry.scope_eq_of_erase heq]
  exact (hbody s hs).of_erase herase

/-- Which procedure a program starts with has nothing to do with where variables lie. -/
lemma Tables.HasMain.of_erase (h : t.erase = t'.erase) (hmain : t.HasMain) : t'.HasMain := by
  obtain ⟨e, he, hparameters⟩ := hmain
  obtain ⟨e', he', hentry⟩ :=
    Tables.binding?_procedure_of_erase h.symm (Tables.procedure?_eq_some.mp he)
  refine ⟨e', Tables.procedure?_eq_some.mpr he', ?_⟩
  have hnone : e'.parameters.map Slot.erase = e.parameters.map Slot.erase :=
    ProcedureEntry.parameters_eq_of_erase hentry
  rwa [hparameters, List.map_nil, List.map_eq_nil_iff] at hnone

end

end TreeCompiler
