import TreeCompiler.Proofs.Frame.Independence
import TreeCompiler.Proofs.Locals.Rewritten

/-!
# Frames under other names

Laying out frames looks up the variables of one procedure after the other, and writes where they
lie. Both is the same under other names: in tables that differ in the names of one scope, the
frames of a program are laid out alike, and the tables that are left differ in these names only
(`Program.allocate_renameIn`).
-/

namespace TreeCompiler

variable {names : List (String × ValueShape)} {procedures : List Procedure} {own : ScopeId}
  {ρ : String → String} {start t t' : Tables} {r r' : Procedure} {e : ProcedureEntry} {n : String}

/-- Two tables differ in the names of one scope, and the first ones differ from those of the
declarations in frames only. -/
structure Tables.Framing (own : ScopeId) (ρ : String → String) (start t t' : Tables) : Prop where
  erase : t.erase = start.erase
  renamed : t' = t.renameIn own ρ
  inside : own ≠ .global

namespace Tables.Framing

variable (h : start.Framing own ρ t t')
include h

/-- Both tables have the same procedures. -/
lemma procedure?_eq : t'.procedure? n = t.procedure? n := by
  rw [h.renamed, procedure?_renameIn h.inside]

/-- A procedure may be changed in both tables. -/
lemma modifyProcedure {f : ProcedureEntry → ProcedureEntry}
    (hf : ∀ p, t.binding? .global n = some (.procedure p) → (f p).erase = p.erase) :
    start.Framing own ρ (t.modifyProcedure n f) (t'.modifyProcedure n f) := by
  refine ⟨(erase_modifyProcedure hf).trans h.erase, ?_, h.inside⟩
  rw [h.renamed]
  exact (renameIn_modifyScope_of_ne h.inside.symm).symm

/-- A variable of a procedure is found under both names. -/
lemma findVar?_eq (he : start.Declares names r e) (hrenamable : e.scope = own → r.Renamable ρ)
    (hn : n ∈ r.decls.map VariableDecl.name) :
    (t'.scope e.scope).findVar? (writtenIn own ρ e.scope n) = (t.scope e.scope).findVar? n := by
  obtain ⟨e', hentry, he'⟩ := he.of_erase h.erase.symm
  have hscope := ProcedureEntry.scope_eq_of_erase hentry
  rw [← hscope] at hrenamable ⊢
  have hbinding := he'.binding?_writtenIn hrenamable hn
  rw [← h.renamed] at hbinding
  unfold Scope.findVar?
  unfold binding? at hbinding
  rw [hbinding]

/-- A variable of a procedure may be placed under both names. -/
lemma setOffset (he : start.Declares names r e) (hrenamable : e.scope = own → r.Renamable ρ)
    (hn : n ∈ r.decls.map VariableDecl.name) {offset : Int} :
    start.Framing own ρ (t.setOffset e.scope n offset)
      (t'.setOffset e.scope (writtenIn own ρ e.scope n) offset) := by
  refine ⟨erase_setOffset.trans h.erase, ?_, h.inside⟩
  rw [h.renamed]
  unfold writtenIn
  split
  · rename_i hown
    have hnames : (t.scope e.scope).names = (start.scope e.scope).names := names_of_erase h.erase
    rw [he.names_scope, hown] at hnames
    rw [hown]
    refine (renameIn_modifyScope_self (Scope.rename_modify ?_)).symm
    rw [hnames]
    exact fun m hm heq => (hrenamable hown).injective_names m hm n hn heq
  · rename_i hown
    exact (renameIn_modifyScope_of_ne hown).symm

end Tables.Framing

/-! ### Steps -/

section
variable (h : start.Framing own ρ t t')
include h

/-- The arguments of a procedure are placed alike. -/
lemma allocateArguments_mirrors (name : String) :
    (allocateArguments name).Mirrors (start.Framing own ρ) t (allocateArguments name) t' := by
  have htypes : t'.types = t.types := by
    rw [h.renamed, Tables.types_renameIn]
  unfold allocateArguments
  refine Step.mirrors_get_bind ?_
  rw [h.procedure?_eq, htypes]
  cases hentry : t.procedure? name with
  | none => exact Step.mirrors_throw
  | some entry =>
    have herase : (placeParameters t.types 0 entry.parameters).1.map Slot.erase =
        entry.parameters.map Slot.erase := map_erase_placeParameters
    dsimp only
    rcases hplaced : placeParameters t.types 0 entry.parameters with ⟨placed, stop⟩
    rw [hplaced] at herase
    cases stop with
    | none => exact Step.mirrors_set_bind Step.mirrors_throw
    | some size =>
      refine Step.mirrors_set_bind (Step.mirrors_pure (h.modifyProcedure fun p hp => ?_))
      rw [Tables.procedure?_eq_some.mp hentry] at hp
      cases hp
      unfold ProcedureEntry.erase
      rw [herase]

end

section
variable (he : start.Declares names r e) (hrenamable : e.scope = own → r.Renamable ρ)
include he hrenamable

/-- A variable of a procedure is found under both names. -/
lemma ownVariable_mirrors (h : start.Framing own ρ t t') (hn : n ∈ r.decls.map VariableDecl.name)
    {procedure : String} :
    (ownVariable procedure e.scope n).Mirrors (start.Framing own ρ) t
      (ownVariable procedure e.scope (writtenIn own ρ e.scope n)) t' := by
  unfold ownVariable
  refine Step.mirrors_get_bind ?_
  rw [h.findVar?_eq he hrenamable hn]
  split
  · exact Step.mirrors_pure h
  · exact Step.mirrors_throw

/-- The parameters of a procedure get their offsets under both names. -/
lemma setOffsets_mirrors (h : start.Framing own ρ t t') {procedure : String} (l : List Parameter)
    (hl : ∀ p ∈ l, p.name ∈ r.decls.map VariableDecl.name) (offsets : List Int) :
    (setOffsets procedure e.scope l offsets).Mirrors (start.Framing own ρ) t
      (setOffsets procedure e.scope (l.map (Parameter.rename (writtenIn own ρ e.scope))) offsets)
      t' := by
  induction l generalizing offsets t t' with
  | nil => exact Step.mirrors_pure h
  | cons p rest ih =>
    obtain ⟨hp, hrest⟩ := List.forall_mem_cons.mp hl
    cases offsets with
    | nil => exact Step.mirrors_pure h
    | cons offset offsets =>
      rw [List.map_cons, setOffsets, setOffsets]
      refine (ownVariable_mirrors he hrenamable h hp).bind fun _ u u' hu => ?_
      refine (Step.mirrors_modify (hu.setOffset he hrenamable hp)).bind fun _ v v' hv => ?_
      exact ih hv hrest offsets

/-- The local variables of a procedure are placed under both names. -/
lemma placeLocals_mirrors (h : start.Framing own ρ t t') {procedure : String} (l : List LocalVar)
    (hl : ∀ v ∈ l, v.name ∈ r.decls.map VariableDecl.name) (offset : Int) :
    (placeLocals procedure e.scope offset l).Mirrors (start.Framing own ρ) t
      (placeLocals procedure e.scope offset (l.map (LocalVar.rename (writtenIn own ρ e.scope))))
      t' := by
  induction l generalizing offset t t' with
  | nil => exact Step.mirrors_pure h
  | cons v rest ih =>
    obtain ⟨hv, hrest⟩ := List.forall_mem_cons.mp hl
    rw [List.map_cons, placeLocals, placeLocals]
    refine (ownVariable_mirrors he hrenamable h hv).bind fun slot u u' hu => Step.mirrors_get_bind ?_
    have htypes : u'.types = u.types := by
      rw [hu.renamed, Tables.types_renameIn]
    rw [htypes]
    cases Word.check (offset - u.types.byteSize slot.type) with
    | none => exact Step.mirrors_throw
    | some next =>
      refine (Step.mirrors_modify (hu.setOffset he hrenamable hv)).bind fun _ w w' hw => ?_
      exact ih hw hrest next

/-- The offsets of the parameters are those of their variables under both names. -/
lemma checkOffsets_renameIn (h : start.Framing own ρ t t') {procedure : String} (l : List Parameter)
    (hl : ∀ p ∈ l, p.name ∈ r.decls.map VariableDecl.name) {slots : List Slot}
    (hok : checkOffsets procedure (t.scope e.scope) l slots = .ok ()) :
    checkOffsets procedure (t'.scope e.scope)
      (l.map (Parameter.rename (writtenIn own ρ e.scope))) slots = .ok () := by
  induction l generalizing slots with
  | nil => rfl
  | cons p rest ih =>
    obtain ⟨hp, hrest⟩ := List.forall_mem_cons.mp hl
    cases slots with
    | nil => rfl
    | cons s slots =>
      have hfound : (t'.scope e.scope).findVar? (p.rename (writtenIn own ρ e.scope)).name =
          (t.scope e.scope).findVar? p.name := h.findVar?_eq he hrenamable hp
      rw [checkOffsets] at hok
      rw [List.map_cons, checkOffsets, hfound]
      split at hok
      · cases hok
      · rename_i hsame
        rw [if_neg hsame]
        exact ih hrest hok

end

/-- The variables of a procedure are placed under both names. -/
lemma Procedure.Rewritten.allocateVariables_mirrors (hr : r.Rewritten names own ρ start r')
    (h : start.Framing own ρ t t') :
    r.allocateVariables.Mirrors (start.Framing own ρ) t r'.allocateVariables t' := by
  obtain ⟨e, he, rfl, hrenamable⟩ := hr
  have hparameters : ∀ p ∈ r.parameters, p.name ∈ r.decls.map VariableDecl.name := fun p hp =>
    List.mem_map_of_mem (f := VariableDecl.name) (List.mem_append_left _ (List.mem_map_of_mem hp))
  have hlocals : ∀ v ∈ r.locals, v.name ∈ r.decls.map VariableDecl.name := fun v hv =>
    List.mem_map_of_mem (f := VariableDecl.name) (List.mem_append_right _ (List.mem_map_of_mem hv))
  -- whatever has been laid out so far, the scope of the procedure is the declared one
  have hscope : ∀ u : Tables, u.erase = start.erase → ∀ entry, u.procedure? r.name = some entry →
      entry.scope = e.scope := by
    intro u hu entry hentry
    obtain ⟨e₀, he₀, hsame⟩ :=
      Tables.binding?_procedure_of_erase hu.symm (Tables.procedure?_eq_some.mp hentry)
    rw [he.bound] at he₀
    cases he₀
    exact (ProcedureEntry.scope_eq_of_erase hsame).symm
  unfold allocateVariables
  refine (allocateArguments_mirrors h r.name).bind fun offsets u u' hu => Step.mirrors_get_bind ?_
  have hfound : u'.procedure? (r.rename (writtenIn own ρ e.scope)).name = u.procedure? r.name :=
    hu.procedure?_eq
  rw [hfound]
  cases hentry : u.procedure? r.name with
  | none => exact Step.mirrors_throw
  | some entry =>
    dsimp only
    rw [hscope u hu.erase entry hentry]
    refine (setOffsets_mirrors he hrenamable hu _ hparameters _).bind fun _ v v' hv => ?_
    refine (placeLocals_mirrors he hrenamable hv _ hlocals _).bind fun lowest w w' hw => ?_
    cases Word.check (-lowest) with
    | none => exact Step.mirrors_throw
    | some size =>
      have hnoted := hw.modifyProcedure (n := r.name)
        (f := fun q => { q with layout := { q.layout with locals := some size } }) fun _ _ => rfl
      refine (Step.mirrors_modify hnoted).bind fun _ x x' hx => Step.mirrors_get_bind ?_
      have hfound' : x'.procedure? (r.rename (writtenIn own ρ e.scope)).name = x.procedure? r.name :=
        hx.procedure?_eq
      rw [hfound']
      cases hentry' : x.procedure? r.name with
      | none => exact Step.mirrors_throw
      | some entry' =>
        dsimp only
        rw [hscope x hx.erase entry' hentry']
        cases hchecked : checkOffsets r.name (x.scope e.scope) r.parameters entry'.parameters with
        | error cause => exact Step.mirrors_throw
        | ok =>
          have hok : checkOffsets (r.rename (writtenIn own ρ e.scope)).name (x'.scope e.scope)
              (r.rename (writtenIn own ρ e.scope)).parameters entry'.parameters = .ok () :=
            checkOffsets_renameIn he hrenamable hx r.parameters hparameters hchecked
          rw [hok]
          exact Step.mirrors_pure hx

/-- The area for outgoing arguments of a procedure is allocated under both names. -/
lemma Procedure.Rewritten.allocateOutgoing_mirrors (hr : r.Rewritten names own ρ start r')
    (h : start.Framing own ρ t t') :
    r.allocateOutgoing.Mirrors (start.Framing own ρ) t r'.allocateOutgoing t' := by
  obtain ⟨e, he, rfl, hrenamable⟩ := hr
  unfold allocateOutgoing
  refine Step.mirrors_get_bind ?_
  have harea : t'.outgoingArea (r.rename (writtenIn own ρ e.scope)).calls = t.outgoingArea r.calls := by
    have hareas : t'.argumentArea? = t.argumentArea? := by
      funext name
      unfold Tables.argumentArea?
      rw [h.procedure?_eq]
    have hcalls : (r.rename (writtenIn own ρ e.scope)).calls =
        r.calls.map fun c => (c.1, c.2.map (Expr.rename (writtenIn own ρ e.scope))) :=
      callsOf_renameStmts r.body
    rw [Tables.outgoingArea_eq, Tables.outgoingArea_eq, hareas, hcalls]
    exact List.foldl_map
  have hfound : t'.procedure? (r.rename (writtenIn own ρ e.scope)).name = t.procedure? r.name :=
    h.procedure?_eq
  rw [harea, hfound]
  rcases t.outgoingArea r.calls with ⟨area, missing⟩
  cases missing with
  | some callee => exact Step.mirrors_throw
  | none =>
    cases t.procedure? r.name with
    | none => exact Step.mirrors_throw
    | some entry =>
      have hnoted := h.modifyProcedure (n := r.name)
        (f := fun q => { q with layout := { entry.layout with outgoing := some area } })
        fun _ _ => rfl
      refine Step.mirrors_set_bind ?_
      split
      · exact Step.mirrors_throw
      · exact Step.mirrors_pure hnoted

/-- The frames of a program are laid out under other names, and the tables are the same but for
these names. -/
lemma Program.allocate_renameIn {p p' : Program} (hinside : own ≠ .global)
    (hp : List.Forall₂ (Procedure.Rewritten names own ρ t) p.procedures p'.procedures) {u : Tables}
    (hallocated : p.allocate.outcome t = (.ok (), u)) :
    p'.allocate.outcome (t.renameIn own ρ) = (.ok (), u.renameIn own ρ) := by
  have hstart : t.Framing own ρ t (t.renameIn own ρ) := ⟨rfl, rfl, hinside⟩
  have hmirrors : p.allocate.Mirrors (t.Framing own ρ) t p'.allocate (t.renameIn own ρ) := by
    have hruntime : List.Forall₂ (fun q q' : RuntimeProcedure => ∀ u u', t.Framing own ρ u u' →
        (Step.nowhere (discard (allocateArguments q.name))).Mirrors (t.Framing own ρ) u
          (Step.nowhere (discard (allocateArguments q'.name))) u') runtimeProcedures
        runtimeProcedures :=
      List.forall₂_same.mpr fun q _ _ _ h => (allocateArguments_mirrors h q.name).discard.nowhere
    have hvariables : List.Forall₂ (fun q q' : Procedure => ∀ u u', t.Framing own ρ u u' →
        (Step.atLine q.mark.line q.allocateVariables).Mirrors (t.Framing own ρ) u
          (Step.atLine q'.mark.line q'.allocateVariables) u') p.procedures p'.procedures :=
      hp.imp fun q q' hq _ _ h => hq.mark ▸ (hq.allocateVariables_mirrors h).atLine q'.mark.line
    have houtgoing : List.Forall₂ (fun q q' : Procedure => ∀ u u', t.Framing own ρ u u' →
        (Step.atLine q.mark.line q.allocateOutgoing).Mirrors (t.Framing own ρ) u
          (Step.atLine q'.mark.line q'.allocateOutgoing) u') p.procedures p'.procedures :=
      hp.imp fun q q' hq _ _ h => hq.mark ▸ (hq.allocateOutgoing_mirrors h).atLine q'.mark.line
    unfold allocate
    exact (Step.mirrors_forM hruntime hstart).bind fun _ _ _ hv =>
      (Step.mirrors_forM hvariables hv).bind fun _ _ _ hw => Step.mirrors_forM houtgoing hw
  obtain ⟨u', hu', hframing⟩ := hmirrors _ _ hallocated
  rw [hu', hframing.renamed]

end TreeCompiler
