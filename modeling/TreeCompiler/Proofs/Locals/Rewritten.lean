import TreeCompiler.Proofs.Locals.Bodies
import TreeCompiler.Proofs.Locals.Scope
import TreeCompiler.Proofs.Scope.Erasure
import TreeCompiler.Proofs.Typing.Decision

/-!
# Programs with other names in one scope

Two programs whose procedures are the same but for the names of the variables of one procedure
(`Procedure.Rewritten`).  In the tables that differ in the same way, names mean the same to every
procedure, so that the one program passes the check, and has code, whenever the other one does,
with the same types and the same code (`Program.check_renameIn`, `Program.emit_renameIn`).
-/

namespace TreeCompiler

variable {names : List (String × ValueShape)} {procedures : List Procedure} {own : ScopeId}
  {ρ : String → String} {t t' : Tables} {r r' : Procedure} {e : ProcedureEntry} {n : String}

/-- A procedure that is declared, and the same procedure with the names that its scope has after one
scope has been given other names. -/
def Procedure.Rewritten (names : List (String × ValueShape)) (own : ScopeId) (ρ : String → String)
    (t : Tables) (r r' : Procedure) : Prop :=
  ∃ e, t.Declares names r e ∧ r' = r.rename (writtenIn own ρ e.scope) ∧
    (e.scope = own → r.Renamable ρ)

/-- A procedure stands where it did. -/
lemma Procedure.Rewritten.mark (h : r.Rewritten names own ρ t r') : r'.mark = r.mark := by
  obtain ⟨e, -, rfl, -⟩ := h
  rfl

/-- Where variables lie does not matter. -/
lemma Procedure.Rewritten.of_erase (h : r.Rewritten names own ρ t r') (herase : t.erase = t'.erase) :
    r.Rewritten names own ρ t' r' := by
  obtain ⟨e, he, hname, hrenamable⟩ := h
  obtain ⟨e', hentry, he'⟩ := he.of_erase herase
  rw [← ProcedureEntry.scope_eq_of_erase hentry] at hname hrenamable
  exact ⟨e', he', hname, hrenamable⟩

namespace Tables.Declares

variable (he : t.Declares names r e)
include he

/-- The scope of a procedure binds the names of its variables. -/
lemma names_scope : (t.scope e.scope).names = r.decls.map VariableDecl.name := by
  obtain ⟨symbols, hscope, hsymbols⟩ := he.symbols
  rw [scope_of_scope? hscope]
  exact Scope.names_eq_of_declares hsymbols

/-- A variable is bound under its new name. -/
lemma binding?_writtenIn (hrenamable : e.scope = own → r.Renamable ρ)
    (hn : n ∈ r.decls.map VariableDecl.name) :
    (t.renameIn own ρ).binding? e.scope (writtenIn own ρ e.scope n) = t.binding? e.scope n := by
  unfold writtenIn
  split
  · rename_i hown
    rw [hown, binding?_renameIn_self]
    rw [← hown, he.names_scope]
    exact fun m hm heq => (hrenamable hown).injective_names m hm n hn heq
  · rename_i hown
    exact binding?_renameIn_of_ne hown

variable (h : t.Holds names procedures) (hglobal : own ≠ .global)
include h hglobal

/-- In a procedure a name means one of its variables, or else what it means globally, whatever the
variables are called. -/
lemma lookup_renameIn : (t.renameIn own ρ).lookup e.scope n =
    ((t.renameIn own ρ).binding? e.scope n).or (t.binding? .global n) := by
  obtain ⟨symbols, hscope, -⟩ := he.symbols
  obtain ⟨global, houter⟩ := h.outermost
  have houter' : (t.renameIn own ρ).scope? .global = some ⟨none, global⟩ :=
    (scope?_renameIn_of_ne hglobal.symm).trans houter
  have hscope' : ∃ s, (t.renameIn own ρ).scope? e.scope = some s ∧ s.parent = some .global := by
    by_cases hown : e.scope = own
    · rw [hown, scope?_renameIn_self, ← hown, hscope]
      exact ⟨_, rfl, rfl⟩
    · rw [scope?_renameIn_of_ne hown, hscope]
      exact ⟨_, rfl, rfl⟩
  obtain ⟨s, hs, hparent⟩ := hscope'
  rw [lookup_local hs hparent (h.inside _ _ he.bound).1 (by rw [scope_of_scope? houter']),
    binding?_renameIn_of_ne hglobal.symm]

/-- In a procedure the variables are found under their new names. -/
lemma relabels (hrenamable : e.scope = own → r.Renamable ρ) :
    t.Relabels (writtenIn own ρ e.scope) e.scope (t.renameIn own ρ) := by
  refine ⟨rfl, fun n slot hslot => ?_⟩
  obtain ⟨hbound, d, hd, rfl, -⟩ := he.lookup_var h hslot
  rw [he.lookup_renameIn h hglobal, he.binding?_writtenIn hrenamable (List.mem_map_of_mem hd), hbound,
    Option.some_or]

/-- The procedures that a procedure calls are found under their names. -/
lemma keepsCallees (hrenamable : e.scope = own → r.Renamable ρ) :
    t.KeepsCallees e.scope (t.renameIn own ρ) r.calls := by
  intro c hc callee hcallee
  have hbound := he.lookup_procedure h hcallee
  rw [he.lookup_eq h] at hcallee
  rw [he.lookup_renameIn h hglobal]
  by_cases hown : e.scope = own
  · have hfree : (t.renameIn own ρ).binding? own c.1 = none := by
      apply binding?_renameIn_eq_none
      rw [← hown, he.names_scope]
      intro m hm
      obtain ⟨d, hd, rfl⟩ := List.mem_map.mp hm
      exact (hrenamable hown).notCallee d hd c hc
    rw [hown, hfree, Option.none_or, hbound]
  · rw [binding?_renameIn_of_ne hown, hcallee]

end Tables.Declares

/-! ### Programs -/

/-- What succeeds blaming a line succeeds without. -/
lemma run_atLine_eq_ok {α : Type} {x : Emit α} {line : UInt32} {c : Cursor} {a : α × Cursor} :
    (Emit.atLine line x).run c = .ok a ↔ x.run c = .ok a := by
  have hrun : (Emit.atLine line x).run c = (x.run c).mapError (.atLine line) := rfl
  rw [hrun]
  cases x.run c <;> simp [Except.mapError]

section
variable (h : t.Holds names procedures) (hglobal : own ≠ .global)
include h hglobal

/-- The body of a procedure passes the check under other names. -/
lemma Procedure.Rewritten.check_repeats (hr : r.Rewritten names own ρ t r') :
    Repeats (r'.check (t.renameIn own ρ)) (r.check t) := by
  obtain ⟨e, he, rfl, hrenamable⟩ := hr
  have hentry := Tables.procedure?_eq_some.mpr he.bound
  have hentry' : (t.renameIn own ρ).procedure? r.name = some e :=
    (Tables.procedure?_renameIn hglobal).trans hentry
  unfold check
  rw [rename, hentry', hentry]
  exact checkStmts_repeats (he.relabels h hglobal hrenamable) r.body
    (he.keepsCallees h hglobal hrenamable)

/-- The code of a procedure is the same under other names. -/
lemma Procedure.Rewritten.emit_repeats {types : Annotations} (hr : r.Rewritten names own ρ t r') :
    Repeats (r'.emit (t.renameIn own ρ) types) (r.emit t types) := by
  obtain ⟨e, he, rfl, hrenamable⟩ := hr
  have hentry := Tables.procedure?_eq_some.mpr he.bound
  have hentry' : (t.renameIn own ρ).procedure? r.name = some e :=
    (Tables.procedure?_renameIn hglobal).trans hentry
  unfold emit
  rw [rename, hentry', hentry]
  refine (Repeats.refl _).bind_of_run fun a c c' ha => ?_
  -- the entry that is read is that of the procedure
  have hread : a.1 = e := by
    obtain ⟨entry, _, hentry, ha⟩ := run_bind_eq_ok.mp (run_atLine_eq_ok.mp ha)
    obtain ⟨_, _, -, ha⟩ := run_bind_eq_ok.mp ha
    obtain ⟨_, _, -, ha⟩ := run_bind_eq_ok.mp ha
    obtain ⟨_, _, -, ha⟩ := run_bind_eq_ok.mp ha
    obtain ⟨rfl, -⟩ := run_pure_eq_ok.mp ha
    cases hentry
    rfl
  obtain ⟨entry, frame, oldFp, oldRa⟩ := a
  cases hread
  exact (emitStmts_repeats (fun _ => Tables.procedure?_renameIn hglobal)
    (he.relabels h hglobal hrenamable) r.body).bind fun _ => .refl _

/-- The code of procedures is the same under other names. -/
lemma emitProcedures_repeats {types : Annotations} {l l' : List Procedure}
    (hl : List.Forall₂ (Procedure.Rewritten names own ρ t) l l') :
    Repeats (emitProcedures (t.renameIn own ρ) types l') (emitProcedures t types l) := by
  induction hl with
  | nil => exact .refl _
  | cons hr _ ih =>
    rw [emitProcedures, emitProcedures]
    exact (hr.emit_repeats h hglobal).bind fun _ => ih.bind fun _ => .refl _

/-- A program passes the check under other names, with the same types. -/
lemma Program.check_renameIn {p p' : Program} {types : Annotations}
    (hp : List.Forall₂ (Procedure.Rewritten names own ρ t) p.procedures p'.procedures)
    (hchecked : p.check t = .ok types) : p'.check (t.renameIn own ρ) = .ok types := by
  obtain ⟨⟨e, he, hparameters⟩, hrun⟩ := check_eq_ok.mp hchecked
  refine check_eq_ok.mpr ⟨⟨e, (Tables.procedure?_renameIn hglobal).trans he, hparameters⟩, ?_⟩
  exact Repeats.forM (hp.imp fun _ _ hr => hr.check_repeats h hglobal) _ _ hrun

/-- The code of a program is the same under other names. -/
lemma Program.emit_renameIn {p p' : Program} {types : Annotations} {assembly : Assembly}
    (hp : List.Forall₂ (Procedure.Rewritten names own ρ t) p.procedures p'.procedures)
    (hemitted : p.emit t types = .ok assembly) : p'.emit (t.renameIn own ρ) types = .ok assembly := by
  obtain ⟨⟨code, c⟩, hrun, hassembly⟩ := bind_eq_ok.mp hemitted
  exact bind_eq_ok.mpr ⟨(code, c), emitProcedures_repeats h hglobal hp _ _ hrun, hassembly⟩

end

end TreeCompiler
