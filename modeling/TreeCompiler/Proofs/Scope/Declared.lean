import Mathlib.Data.List.Forall2
import Mathlib.Data.List.Nodup
import TreeCompiler.Proofs.Scope.Binding
import TreeCompiler.Proofs.Types.Shape
import TreeCompiler.Scope

/-!
# Tables that belong to a program

What the tables hold once the types and the procedures of a program are declared: every procedure is
bound in the global scope, its own scope binds its variables in the order of their declaration, each
to a slot of the shape that is written, and the scopes of different procedures are different.
Nothing is said about where variables lie, so that the same holds while frames are laid out.
-/

namespace TreeCompiler

/-! ### Declared variables -/

/-- A variable of a procedure as it is declared, be it a parameter or a local variable. -/
structure VariableDecl where
  name : String
  type : TypeExpr
  isReference : Bool

/-- The declaration of a parameter. -/
def Parameter.decl (p : Parameter) : VariableDecl := ⟨p.name, p.type, p.isReference⟩

/-- The declaration of a local variable, which is never a reference. -/
def LocalVar.decl (v : LocalVar) : VariableDecl := ⟨v.name, v.type, false⟩

/-- The variables that a procedure declares, its parameters first. -/
def Procedure.decls (q : Procedure) : List VariableDecl :=
  q.parameters.map Parameter.decl ++ q.locals.map LocalVar.decl

/-- A slot is passed as a variable is declared, and holds values of the shape that is written. -/
def Slot.Holds (names : List (String × ValueShape)) (types : TypeTable) (slot : Slot)
    (d : VariableDecl) : Prop :=
  slot.isReference = d.isReference ∧
    ∃ s, d.type.shape? names = some s ∧ types.shape? slot.type = some s

/-- A symbol binds the name of a declared variable to a slot for it. -/
def Symbol.Declares (names : List (String × ValueShape)) (types : TypeTable) (x : Symbol)
    (d : VariableDecl) : Prop :=
  x.name = d.name ∧ ∃ slot, x.entry = .var slot ∧ slot.Holds names types d

/-! ### Growing tables of types -/

/-- A later table of types knows all the shapes that an earlier one does. -/
def TypeTable.Keeps (earlier later : TypeTable) : Prop :=
  ∀ id s, earlier.shape? id = some s → later.shape? id = some s

/-- A slot holds what it does in a later table as well. -/
lemma Slot.Holds.keeps {names : List (String × ValueShape)} {types types' : TypeTable} {slot : Slot}
    {d : VariableDecl} (h : slot.Holds names types d) (hkeeps : types.Keeps types') :
    slot.Holds names types' d := by
  obtain ⟨href, s, hs, hshape⟩ := h
  exact ⟨href, s, hs, hkeeps _ _ hshape⟩

/-- A symbol declares what it does in a later table as well. -/
lemma Symbol.Declares.keeps {names : List (String × ValueShape)} {types types' : TypeTable} {x : Symbol}
    {d : VariableDecl} (h : x.Declares names types d) (hkeeps : types.Keeps types') :
    x.Declares names types' d := by
  obtain ⟨hname, slot, hentry, hslot⟩ := h
  exact ⟨hname, slot, hentry, hslot.keeps hkeeps⟩

/-! ### Scopes of declared variables -/

section
variable {names : List (String × ValueShape)} {types : TypeTable} {s : Scope} {l : List VariableDecl}

/-- A scope binds the names of the variables that its symbols declare. -/
lemma Scope.names_eq_of_declares (h : List.Forall₂ (Symbol.Declares names types) s.symbols l) :
    s.names = l.map VariableDecl.name := by
  unfold Scope.names
  generalize s.symbols = symbols at h
  induction h with
  | nil => rfl
  | cons hx _ ih => rw [List.map_cons, List.map_cons, hx.1, ih]

/-- What a scope of declared variables binds is a slot for one of them. -/
lemma Scope.find?_eq_some_of_declares
    (h : List.Forall₂ (Symbol.Declares names types) s.symbols l) {n : String} {e : Entry}
    (hn : s.find? n = some e) :
    ∃ d ∈ l, d.name = n ∧ ∃ slot, e = .var slot ∧ slot.Holds names types d := by
  have hmem := Scope.mem_of_find? hn
  revert hmem
  generalize s.symbols = symbols at h
  intro hmem
  induction h with
  | nil => cases hmem
  | cons hx _ ih =>
    rcases List.mem_cons.mp hmem with rfl | hmem
    · exact ⟨_, List.mem_cons_self, hx.1.symm, hx.2⟩
    · obtain ⟨d, hd, hrest⟩ := ih hmem
      exact ⟨d, List.mem_cons_of_mem _ hd, hrest⟩

/-- A scope of declared variables binds each of them to a slot for it. -/
lemma Scope.exists_find?_of_declares
    (h : List.Forall₂ (Symbol.Declares names types) s.symbols l)
    (hnodup : (l.map VariableDecl.name).Nodup) {d : VariableDecl} (hd : d ∈ l) :
    ∃ slot, s.find? d.name = some (.var slot) ∧ slot.Holds names types d := by
  have hnames : s.names.Nodup := by
    rw [Scope.names_eq_of_declares h]
    exact hnodup
  obtain ⟨x, hx, hname, slot, hentry, hslot⟩ : ∃ x ∈ s.symbols, x.Declares names types d := by
    clear hnames hnodup
    generalize s.symbols = symbols at h
    induction h with
    | nil => cases hd
    | cons hx _ ih =>
      rcases List.mem_cons.mp hd with rfl | hd
      · exact ⟨_, List.mem_cons_self, hx⟩
      · obtain ⟨x, hx, hrest⟩ := ih hd
        exact ⟨x, List.mem_cons_of_mem _ hx, hrest⟩
  have hfind := Scope.find?_of_mem hnames hx
  rw [hname, hentry] at hfind
  exact ⟨slot, hfind, hslot⟩

end

/-! ### Declared procedures -/

namespace Tables

/-- The global scope binds a procedure's name to an entry, whose scope binds the procedure's
variables and nothing else. -/
structure Declares (names : List (String × ValueShape)) (t : Tables) (q : Procedure)
    (e : ProcedureEntry) : Prop where
  bound : t.binding? .global q.name = some (.procedure e)
  isPredefined : e.isPredefined = false
  symbols : ∃ symbols, t.scope? e.scope = some ⟨some .global, symbols⟩ ∧
    List.Forall₂ (Symbol.Declares names t.types) symbols q.decls
  nodup : (q.decls.map VariableDecl.name).Nodup
  parameters : List.Forall₂ (Slot.Holds names t.types) e.parameters (q.parameters.map Parameter.decl)
  scalar : ∀ p ∈ q.parameters, p.isReference = false →
    ∀ s, p.type.shape? names = some s → s.isScalar = true

/-- The global scope binds the name of a runtime procedure to an entry with integer parameters. -/
def DeclaresRuntime (t : Tables) (r : RuntimeProcedure) (e : ProcedureEntry) : Prop :=
  t.binding? .global r.name = some (.procedure e) ∧ e.isPredefined = true ∧
    List.Forall₂ (fun slot isReference => slot.type = .int ∧ slot.isReference = isReference)
      e.parameters r.references

/-- What the tables hold when some types and procedures are declared. -/
structure Holds (names : List (String × ValueShape)) (procedures : List Procedure) (t : Tables) :
    Prop where
  wellFormed : t.types.WellFormed
  outermost : ∃ symbols, t.scope? .global = some ⟨none, symbols⟩
  typeNames : ∀ n id, t.binding? .global n = some (.type id) →
    ∃ s, names.lookup n = some s ∧ t.types.shape? id = some s
  noVariable : ∀ n slot, t.binding? .global n ≠ some (.var slot)
  runtime : ∀ r ∈ runtimeProcedures, ∃ e, t.DeclaresRuntime r e
  declared : ∀ q ∈ procedures, ∃ e, t.Declares names q e
  origin : ∀ n e, t.binding? .global n = some (.procedure e) →
    (∃ r ∈ runtimeProcedures, r.name = n) ∨ ∃ q ∈ procedures, q.name = n
  inside : ∀ n e, t.binding? .global n = some (.procedure e) →
    e.scope ≠ .global ∧ t.HasScope e.scope
  separate : ∀ n n' e e', t.binding? .global n = some (.procedure e) →
    t.binding? .global n' = some (.procedure e') → e.scope = e'.scope → n = n'
  nodup : (runtimeProcedures.map RuntimeProcedure.name ++ procedures.map Procedure.name).Nodup

end Tables

/-! ### Looking up names in procedures -/

namespace Tables

variable {names : List (String × ValueShape)} {procedures : List Procedure} {t : Tables} {q : Procedure}
  {e : ProcedureEntry} {n : String}

/-- What the global scope binds the name of a procedure to is the entry of the procedure. -/
lemma Holds.declares (h : t.Holds names procedures) (hq : q ∈ procedures)
    (he : t.binding? .global q.name = some (.procedure e)) : t.Declares names q e := by
  obtain ⟨e', hdeclares⟩ := h.declared q hq
  cases he.symm.trans hdeclares.bound
  exact hdeclares

/-- In a procedure a name means one of its variables, or else what it means globally. -/
lemma Declares.lookup_eq (he : t.Declares names q e) (h : t.Holds names procedures) :
    t.lookup e.scope n = (t.binding? e.scope n).or (t.binding? .global n) := by
  obtain ⟨symbols, hscope, -⟩ := he.symbols
  obtain ⟨global, hglobal⟩ := h.outermost
  refine lookup_local hscope rfl (h.inside _ _ he.bound).1 ?_
  rw [scope_of_scope? hglobal]

/-- What the scope of a procedure binds is a slot for one of the procedure's variables. -/
lemma Declares.binding?_eq_some (he : t.Declares names q e) {x : Entry}
    (hx : t.binding? e.scope n = some x) :
    ∃ d ∈ q.decls, d.name = n ∧ ∃ slot, x = .var slot ∧ slot.Holds names t.types d := by
  obtain ⟨symbols, hscope, hsymbols⟩ := he.symbols
  unfold binding? at hx
  rw [scope_of_scope? hscope] at hx
  exact Scope.find?_eq_some_of_declares hsymbols hx

/-- A variable that is looked up in a procedure is one of the procedure's variables. -/
lemma Declares.lookup_var (he : t.Declares names q e) (h : t.Holds names procedures) {slot : Slot}
    (hslot : t.lookup e.scope n = some (.var slot)) : t.binding? e.scope n = some (.var slot) ∧
      ∃ d ∈ q.decls, d.name = n ∧ slot.Holds names t.types d := by
  rw [he.lookup_eq h, Option.or_eq_some_iff] at hslot
  rcases hslot with hslot | ⟨-, hslot⟩
  · obtain ⟨d, hd, hname, slot', heq, hholds⟩ := he.binding?_eq_some hslot
    cases heq
    exact ⟨hslot, d, hd, hname, hholds⟩
  · exact absurd hslot (h.noVariable n slot)

/-- A procedure that is looked up in a procedure is a global one. -/
lemma Declares.lookup_procedure (he : t.Declares names q e) (h : t.Holds names procedures)
    {callee : ProcedureEntry} (hcallee : t.lookup e.scope n = some (.procedure callee)) :
    t.binding? .global n = some (.procedure callee) := by
  rw [he.lookup_eq h, Option.or_eq_some_iff] at hcallee
  rcases hcallee with hcallee | ⟨-, hcallee⟩
  · obtain ⟨d, -, -, slot, heq, -⟩ := he.binding?_eq_some hcallee
    cases heq
  · exact hcallee

end Tables

/-- The tables belong to a program: they hold its types and its procedures. -/
def Tables.BelongTo (t : Tables) (p : Program) : Prop := t.Holds p.typeNames p.procedures

end TreeCompiler
