import TreeCompiler.Compilation
import TreeCompiler.Proofs.Emission.Closed
import TreeCompiler.Proofs.Frame.Allocation

/-!
# What is emitted for a program

Once a program is declared, checked and laid out, emitting it fails only where the registers of the
bank do not suffice (`Program.Ready.emit_eq`), and a compilation that succeeds gives the code of the
closed form (`compile_code`), which depends on the program alone.
-/

namespace TreeCompiler

variable {p : Program} {t : Tables} {q : Procedure} {e : ProcedureEntry}

/-! ### Places and signatures -/

/-- The place of a declared variable is found under its name. -/
lemma lookup_zipWith_place {names : List (String × ValueShape)} {R : VariableDecl → Int → Prop}
    {ds : List VariableDecl} {offsets : List Int} (h : List.Forall₂ R ds offsets)
    (hnodup : (ds.map VariableDecl.name).Nodup) {d : VariableDecl} (hd : d ∈ ds) :
    ∃ offset, R d offset ∧ (List.zipWith (VariableDecl.place names) ds offsets).lookup d.name =
      some ⟨(d.type.shape? names).getD .int, d.isReference, offset⟩ := by
  induction h with
  | nil => cases hd
  | @cons d' offset ds offsets hd' _ ih =>
    rw [List.map_cons, List.nodup_cons] at hnodup
    rw [List.zipWith_cons_cons, VariableDecl.place]
    rcases List.mem_cons.mp hd with rfl | hd
    · exact ⟨offset, hd', List.lookup_cons_self⟩
    · have hne : d.name ≠ d'.name := fun heq => hnodup.1 (heq ▸ List.mem_map_of_mem hd)
      rw [List.lookup_cons, beq_eq_false_iff_ne.mpr hne]
      exact ih hnodup.2 hd

/-- A procedure of the program is found under its name. -/
lemma Tables.BelongTo.find?_procedure (h : t.BelongTo p) (hq : q ∈ p.procedures) :
    p.procedures.find? (·.name == q.name) = some q :=
  find?_eq_some_of_nodup (List.nodup_append.mp h.nodup).2.1 hq

/-- The signature of a procedure of the program. -/
lemma Tables.BelongTo.signature_procedure (h : t.BelongTo p) (hq : q ∈ p.procedures) :
    p.signature q.name = some (q.formals p.typeNames) := by
  unfold Program.signature
  rw [h.find?_procedure hq]

/-- The signature of a procedure of the runtime library. -/
lemma Tables.BelongTo.signature_runtime (h : t.BelongTo p) {r : RuntimeProcedure}
    (hr : r ∈ runtimeProcedures) : p.signature r.name = some r.formals := by
  obtain ⟨hnodup, -, hdisjoint⟩ := List.nodup_append.mp h.nodup
  have hnone : p.procedures.find? (·.name == r.name) = none := by
    rw [List.find?_eq_none]
    intro q hq heq
    exact hdisjoint _ (List.mem_map_of_mem hr) _ (List.mem_map_of_mem hq) (beq_iff_eq.mp heq).symm
  unfold Program.signature
  rw [hnone, find?_eq_some_of_nodup hnodup hr]
  rfl

/-- The signature of a global procedure tells what its parameters are. -/
lemma Tables.BelongTo.signature_eq (h : t.BelongTo p) {name : String}
    (he : t.binding? .global name = some (.procedure e)) :
    ∃ formals, p.signature name = some formals ∧
      List.Forall₂ (fun slot f => slot.isReference = f.isReference ∧
        t.types.shape? slot.type = some f.shape) e.parameters formals := by
  rcases h.origin name e he with ⟨r, hr, rfl⟩ | ⟨q, hq, rfl⟩
  · obtain ⟨e', he', -, hparameters⟩ := h.runtime r hr
    rw [he] at he'
    cases he'
    refine ⟨_, h.signature_runtime hr, ?_⟩
    unfold RuntimeProcedure.formals
    rw [List.forall₂_map_right_iff]
    refine hparameters.imp fun slot b hslot => ⟨hslot.2, ?_⟩
    rw [hslot.1, TypeTable.shape?_int]
  · refine ⟨_, h.signature_procedure hq, ?_⟩
    have hparameters := (h.declares hq he).parameters
    unfold Procedure.formals
    rw [List.forall₂_map_right_iff] at hparameters ⊢
    refine hparameters.imp fun slot d hslot => ⟨hslot.1, ?_⟩
    obtain ⟨-, s, hs, hshape⟩ := hslot
    have hsame : d.type.shape? p.typeNames = some s := hs
    rw [hsame]
    exact hshape

/-- A name with a signature is that of a global procedure. -/
lemma Tables.BelongTo.exists_of_signature (h : t.BelongTo p) {name : String}
    {formals : List Formal} (hformals : p.signature name = some formals) :
    ∃ e, t.binding? .global name = some (.procedure e) := by
  unfold Program.signature at hformals
  split at hformals
  · rename_i q hq
    obtain ⟨e, he⟩ := h.declared q (List.mem_of_find?_eq_some hq)
    have hname := List.find?_some hq
    rw [beq_iff_eq] at hname
    exact ⟨e, hname ▸ he.bound⟩
  · obtain ⟨r, hr, -⟩ := Option.map_eq_some_iff.mp hformals
    obtain ⟨e, he⟩ := h.runtime r (List.mem_of_find?_eq_some hr)
    have hname := List.find?_some hr
    rw [beq_iff_eq] at hname
    exact ⟨e, hname ▸ he.1⟩

/-- The argument area of a global procedure is as large as its signature says. -/
lemma Tables.BelongTo.argumentBytes_eq (h : t.BelongTo p) (name : String) :
    t.argumentBytes name = Word.size * ((p.signature name).getD []).length := by
  unfold Tables.argumentBytes
  cases he : t.procedure? name with
  | some e =>
    obtain ⟨formals, hformals, hslots⟩ := h.signature_eq (Tables.procedure?_eq_some.mp he)
    rw [hformals]
    exact congrArg (Word.size * ·) hslots.length_eq
  | none =>
    cases hformals : p.signature name with
    | none => rfl
    | some formals =>
      obtain ⟨e, hbound⟩ := h.exists_of_signature hformals
      rw [Tables.procedure?_eq_some.mpr hbound] at he
      cases he

/-- The frame of a procedure fits if its arguments and the bytes of the closed form do. -/
lemma Tables.BelongTo.fits_iff (h : t.BelongTo p) : q.Fits p.typeNames t ↔
    (Word.size * q.parameters.length : Int) ≤ Word.max ∧
      (q.frameBytes p.typeNames p.signature : Int) ≤ Word.max := by
  have hframe : (q.frameBytes p.typeNames p.signature : Int) =
      q.localBytes p.typeNames + t.outgoingBytes q.calls + 2 * Word.size := by
    unfold Procedure.frameBytes Procedure.outgoingBytes Tables.outgoingBytes
    simp only [h.argumentBytes_eq]
    push_cast
    rfl
  rw [hframe]
  exact ⟨fun hfits => ⟨hfits.arguments, hfits.frame⟩, fun hfits => ⟨hfits.1, hfits.2⟩⟩

/-- The area for outgoing arguments has room for the arguments of every callee. -/
lemma Procedure.argumentBytes_le {signature : String → Option (List Formal)}
    {c : String × List Expr} (hc : c ∈ q.calls) {formals : List Formal}
    (hformals : signature c.1 = some formals) :
    Word.size * formals.length ≤ q.outgoingBytes signature := by
  have hle := le_foldr_max (f := fun c => Word.size * ((signature c.1).getD []).length) hc
  rwa [hformals] at hle

/-- The tables of a program after its frames have been laid out. -/
structure Tables.LaidOut (t : Tables) (p : Program) : Prop where
  belongTo : t.BelongTo p
  runtime : t.PlacesRuntime runtimeProcedures
  procedures : ∀ q ∈ p.procedures, ∃ e, t.LaysOut p.typeNames q e

namespace Tables.LaidOut

variable {name : String}

/-- What the global scope binds the name of a procedure to is the entry with the procedure's frame. -/
lemma laysOut (h : t.LaidOut p) (hq : q ∈ p.procedures)
    (he : t.binding? .global q.name = some (.procedure e)) : t.LaysOut p.typeNames q e := by
  obtain ⟨e', hlaysOut⟩ := h.procedures q hq
  cases he.symm.trans hlaysOut.bound
  exact hlaysOut

/-- A global procedure has its parameters at consecutive words, and its signature tells what they
are. -/
lemma signature_eq (h : t.LaidOut p) (he : t.binding? .global name = some (.procedure e)) :
    e.PlacesArguments ∧ ∃ formals, p.signature name = some formals ∧
      List.Forall₂ (fun slot f => slot.isReference = f.isReference ∧
        t.types.shape? slot.type = some f.shape) e.parameters formals := by
  refine ⟨?_, h.belongTo.signature_eq he⟩
  rcases h.belongTo.origin name e he with ⟨r, hr, rfl⟩ | ⟨q, hq, rfl⟩
  · obtain ⟨e', he', hplaces⟩ := h.runtime r hr
    rw [he] at he'
    cases he'
    exact hplaces
  · exact (h.laysOut hq he).arguments

/-- What the tables say about names in a procedure is what the program says. -/
lemma shows (h : t.LaidOut p) (hq : q ∈ p.procedures)
    (he : t.binding? .global q.name = some (.procedure e)) :
    t.Shows e.scope (q.places p.typeNames) p.signature := by
  have hdeclares := h.belongTo.declares hq he
  have hlaysOut := h.laysOut hq he
  refine ⟨h.belongTo.wellFormed, fun name slot hslot => ?_, fun name callee hcallee => ?_⟩
  · obtain ⟨hbinding, d, hd, rfl, href, s, hs, hshape⟩ :=
      hdeclares.lookup_var h.belongTo hslot
    obtain ⟨offset, ⟨slot', hslot', hoffset⟩, hlookup⟩ :=
      lookup_zipWith_place hlaysOut.places hdeclares.nodup hd
    rw [hbinding] at hslot'
    cases hslot'
    refine ⟨_, hlookup, hoffset, href, ?_⟩
    dsimp only
    rw [hs]
    exact hshape
  · have hglobal := hdeclares.lookup_procedure h.belongTo hcallee
    obtain ⟨hplaces, hsignature⟩ := h.signature_eq hglobal
    exact ⟨Tables.procedure?_eq_some.mpr hglobal, hplaces.1, hsignature⟩

/-- The area for outgoing arguments is the one of the closed form. -/
lemma outgoing_eq (h : t.LaidOut p) {calls : List (String × List Expr)} {sizes : List Nat}
    (hsizes : t.CalleeSizes calls sizes) :
    sizes = calls.map fun c => Word.size * ((p.signature c.1).getD []).length := by
  induction hsizes with
  | nil => rfl
  | cons hc _ ih =>
    obtain ⟨callee, hcallee, rfl⟩ := hc
    obtain ⟨-, formals, hsignature, hformals⟩ := h.signature_eq hcallee
    rw [List.map_cons, ih, hsignature, hformals.length_eq]
    rfl

/-- The sizes of a frame are those of the closed form. -/
lemma layout_eq (h : t.LaidOut p) (hlaysOut : t.LaysOut p.typeNames q e) :
    e.layout.frameSize = some (q.frameBytes p.typeNames p.signature : Int) ∧
      e.layout.oldFramePointer = some (q.outgoingBytes p.signature + Word.size : Int) ∧
      e.layout.oldReturnAddress = some (-(q.localBytes p.typeNames + 2 * Word.size) : Int) ∧
      e.layout.makesCalls = !q.calls.isEmpty := by
  obtain ⟨area, sizes, harea, hnone, hsizes, hsize⟩ := hlaysOut.outgoing
  have houtgoing : area.size = (q.outgoingBytes p.signature : Int) := by
    rw [hsize, h.outgoing_eq hsizes]
    rfl
  obtain ⟨size, hframe⟩ := hlaysOut.frameSize
  obtain ⟨offset, hreturn⟩ := hlaysOut.returnAddress
  have hlocals := hlaysOut.locals
  have hword : (Word.size : Int) = 4 := rfl
  have hsaved : FrameLayout.savedRegisters = 2 * (Word.size : Int) := rfl
  have hframeFits := (FrameLayout.frameSize_eq_some hlocals harea).mp hframe
  have hreturnFits := (FrameLayout.oldReturnAddress_eq_some hlocals).mp hreturn
  rw [houtgoing, hsaved, Word.min] at hframeFits
  rw [hsaved] at hreturnFits
  refine ⟨?_, ?_, ?_, ?_⟩
  · rw [hframe, hframeFits.1, Procedure.frameBytes]
    push_cast
    rfl
  · refine (FrameLayout.oldFramePointer_eq_some harea).mpr ⟨by rw [houtgoing], ?_, ?_⟩
    · rw [Word.min]
      omega
    · omega
  · rw [hreturn, hreturnFits.1]
  · unfold FrameLayout.makesCalls
    rw [harea]
    cases area with
    | noCalls =>
      rw [hnone.mpr rfl]
      rfl
    | bytes size =>
      have hne : q.calls ≠ [] := fun hnil => by cases hnone.mp hnil
      rw [List.isEmpty_eq_false_iff.mpr hne]
      rfl

end Tables.LaidOut

/-! ### Emitting procedures -/

/-- A program is ready to be emitted: its frames are laid out, its bodies are well-typed, and the
types of their nodes are noted. -/
structure Program.Ready (p : Program) (t : Tables) (types : Annotations) : Prop where
  laidOut : t.LaidOut p
  main : t.HasMain
  wellTyped : ∀ q ∈ p.procedures, q.WellTyped t
  notes : ∀ q ∈ p.procedures, ∀ e, t.procedure? q.name = some e →
    t.Notes e.scope types (typedNodesOf q.body)

variable {types : Annotations}

/-- The code of a procedure is what the closed form says, if the registers suffice. -/
lemma Program.Ready.emit_procedure (h : p.Ready t types) (hq : q ∈ p.procedures) {l high : Nat} :
    Runs (q.emit t types) (.at 0 l high)
      (fun code c => code = q.code p.typeNames p.signature l ∧
        c = .at 0 (l + labelsOf q.body) (max high (needOf q.body)) ∧ needOf q.body ≤ bankSize)
      (fun e => firstOverflow? (demandsOf q.body) = some e) := by
  obtain ⟨e, hlaysOut⟩ := h.laidOut.procedures q hq
  have hentry : t.procedure? q.name = some e := Tables.procedure?_eq_some.mpr hlaysOut.bound
  obtain ⟨hframe, holdFp, holdRa, hsaves⟩ := h.laidOut.layout_eq hlaysOut
  obtain ⟨e', he', hbody⟩ := h.wellTyped q hq
  rw [hentry] at he'
  cases he'
  have hhead : Runs (Emit.atLine q.mark.line do
      let entry ← Emit.require (.unknownSymbol q.name) (t.procedure? q.name)
      let missing := .missingLayout q.name
      let frame ← Emit.require missing entry.layout.frameSize
      let oldFp ← Emit.require missing entry.layout.oldFramePointer
      let oldRa ← Emit.require missing entry.layout.oldReturnAddress
      return (entry, frame, oldFp, oldRa)) (.at 0 l high)
      (fun r c => r = (e, (q.frameBytes p.typeNames p.signature : Int),
        (q.outgoingBytes p.signature + Word.size : Int),
        (-(q.localBytes p.typeNames + 2 * Word.size) : Int)) ∧ c = .at 0 l high)
      (fun e => firstOverflow? (demandsOf q.body) = some e) := by
    simp only [hentry, Emit.require, pure_bind, hframe, holdFp, holdRa]
    exact ⟨rfl, rfl⟩
  unfold Procedure.emit
  rw [runs_bind]
  refine hhead.mono (fun r c₁ h₁ => ?_) fun _ h => h
  obtain ⟨rfl, rfl⟩ := h₁
  dsimp only
  rw [runs_bind]
  refine (emitStmts_runs (h.laidOut.shows hq hlaysOut.bound) hbody (h.notes q hq e hentry)).mono
    (fun body c₂ h₂ => ?_) fun _ h => h
  obtain ⟨rfl, rfl, hfits⟩ := h₂
  rw [runs_pure, Procedure.code, ← hsaves]
  exact ⟨rfl, rfl, hfits⟩

/-- The code of procedures is what the closed form says, if the registers suffice. -/
lemma Program.Ready.emit_procedures (h : p.Ready t types) {l high : Nat} {qs : List Procedure}
    (hqs : qs ⊆ p.procedures) :
    Runs (emitProcedures t types qs) (.at 0 l high)
      (fun code c => code = proceduresCode p.typeNames p.signature qs l ∧
        c = .at 0 (l + (qs.map fun q => labelsOf q.body).sum)
          (max high ((qs.map fun q => needOf q.body).foldr max 0)) ∧
        (qs.map fun q => needOf q.body).foldr max 0 ≤ bankSize)
      (fun e => firstOverflow? (qs.flatMap fun q => demandsOf q.body) = some e) := by
  induction qs generalizing l high with
  | nil => exact ⟨rfl, Cursor.at_congr rfl (Nat.max_zero _).symm, Nat.zero_le _⟩
  | cons q rest ih =>
    obtain ⟨hq, hrest⟩ := List.cons_subset.mp hqs
    rw [emitProcedures, proceduresCode, List.map_cons, List.map_cons, List.sum_cons,
      List.foldr_cons, List.flatMap_cons, firstOverflow?_append, runs_bind]
    refine (h.emit_procedure hq).mono (fun _ c₁ h₁ => ?_) fun e he => by rw [he]; rfl
    obtain ⟨rfl, rfl, hfits₁⟩ := h₁
    rw [runs_bind, firstOverflow?_eq_none (needOf_eq q.body ▸ hfits₁), Option.none_or]
    refine (ih hrest).mono (fun _ c₂ h₂ => ?_) fun _ h => h
    obtain ⟨rfl, rfl, hfits₂⟩ := h₂
    rw [runs_pure]
    exact ⟨rfl, Cursor.at_congr (by omega) (by omega), by omega⟩

/-- The code of a program is the closed form if the registers of the bank suffice, and otherwise its
emission fails at the first demand that is too large. -/
lemma Program.Ready.emit_eq (h : p.Ready t types) :
    (p.need ≤ bankSize ∧ p.emit t types = .ok ⟨p.code, p.need⟩) ∨
      ∃ e, firstOverflow? p.demands = some e ∧ p.emit t types = .error e := by
  have hruns : Runs (emitProcedures t types p.procedures) (.at 0 0 0) _ _ :=
    h.emit_procedures (List.Subset.refl p.procedures)
  have hemit : p.emit t types = ((emitProcedures t types p.procedures).run .start).map fun r =>
      ⟨headCode ++ r.1, r.2.registers.highWater⟩ := by
    unfold Program.emit
    cases (emitProcedures t types p.procedures).run .start <;> rfl
  rw [hemit, Cursor.start_eq]
  unfold Runs at hruns
  cases hrun : (emitProcedures t types p.procedures).run (.at 0 0 0) with
  | error e =>
    rw [hrun] at hruns
    exact .inr ⟨e, hruns, rfl⟩
  | ok r =>
    obtain ⟨code, c⟩ := r
    rw [hrun] at hruns
    obtain ⟨rfl, rfl, hfits⟩ := hruns
    refine .inl ⟨hfits, ?_⟩
    have hhigh : max 0 ((p.procedures.map fun q => needOf q.body).foldr max 0) = p.need :=
      Nat.zero_max _
    rw [← hhigh]
    rfl

/-! ### Compilations -/

section
variable {definitions : List Definition} {declared allocated : Tables}

/-- A checked program has a main procedure, and its bodies obey the typing rules. -/
lemma Program.wellTyped_of_check (hchecked : p.check declared = .ok types) :
    declared.HasMain ∧ ∀ q ∈ p.procedures, q.WellTyped declared :=
  exists_check_eq_ok_iff.mp ⟨types, hchecked⟩

/-- The frames of a program that is declared are laid out, and nothing but places and layouts has
changed. -/
lemma Program.laidOut_of_allocate (h : t.BelongTo p)
    (hallocated : p.allocate.runOn t = (.ok (), allocated)) :
    allocated.erase = t.erase ∧ allocated.LaidOut p := by
  obtain ⟨-, herase, hruntime, hlaysOut⟩ := (allocate_faults h).of_ok hallocated
  exact ⟨herase, h.of_erase herase.symm, hruntime, hlaysOut⟩

/-- A program is ready to be emitted once it has gone through the passes before. -/
lemma Program.ready
    (hdeclared : (ofDefinitions definitions).declare.runOn .predefined = (.ok (), declared))
    (hchecked : (ofDefinitions definitions).check declared = .ok types)
    (hallocated : (ofDefinitions definitions).allocate.runOn declared = (.ok (), allocated)) :
    (ofDefinitions definitions).Ready allocated types := by
  have hbelong := (declare_belongTo (ofDefinitions definitions)).of_ok hdeclared
  obtain ⟨hmain, htyped⟩ := wellTyped_of_check hchecked
  obtain ⟨herase, hlaidOut⟩ := laidOut_of_allocate hbelong hallocated
  refine ⟨hlaidOut, hmain.of_erase herase.symm, fun q hq => (htyped q hq).of_erase herase.symm,
    fun q hq e he x hx t ht => ?_⟩
  obtain ⟨e', he', hentry⟩ :=
    Tables.binding?_procedure_of_erase herase.symm (Tables.procedure?_eq_some.mp he)
  have hscope := ProcedureEntry.scope_eq_of_erase hentry
  have hdeclaredType : x.HasType declared e'.scope t := by
    rw [hscope]
    cases x with
    | place v => exact Variable.HasType.of_erase herase ht
    | expr e => exact Expr.HasType.of_erase herase ht
  exact (find?_annotations_of_mem rfl hchecked hq (Tables.procedure?_eq_some.mpr he') hx).mpr
    hdeclaredType

/-- A program that has been declared and checked meets no internal error later on: laying out its
frames fails only if a frame is too large, and then emitting its code fails only if an expression
takes too many registers. -/
theorem Program.no_internal_error (definitions : List Definition) (declared : Tables)
    (types : Annotations)
    (hdeclared : (ofDefinitions definitions).declare.runOn .predefined = (.ok (), declared))
    (hchecked : (ofDefinitions definitions).check declared = .ok types) :
    (∀ e t, (ofDefinitions definitions).allocate.runOn declared = (.error e, t) →
      ∃ name, e.cause = .frameTooLarge name) ∧
    ∀ t, (ofDefinitions definitions).allocate.runOn declared = (.ok (), t) →
      ∀ e, (ofDefinitions definitions).emit t types = .error e → e.cause = .registerOverflow := by
  have hbelong := (declare_belongTo (ofDefinitions definitions)).of_ok hdeclared
  constructor
  · intro e t hrun
    exact (allocate_ends hbelong (wellTyped_of_check hchecked).2).of_error hrun
  · intro t hallocated e he
    rcases (ready hdeclared hchecked hallocated).emit_eq with ⟨-, hok⟩ | ⟨e', hfirst, he'⟩
    · rw [hok] at he
      cases he
    · rw [he'] at he
      cases he
      obtain ⟨-, d, -, -, -, -, rfl⟩ := firstOverflow?_eq_some_iff.mp hfirst
      rfl

/-- The frames of the counting program are laid out. -/
lemma exists_countdown_allocated : ∃ allocated,
    (Program.ofDefinitions countdown).allocate.runOn countdownTables = (.ok (), allocated) := by
  have hok : ((Program.ofDefinitions countdown).allocate.runOn countdownTables).1 = .ok () := by
    decide +kernel
  generalize (Program.ofDefinitions countdown).allocate.runOn countdownTables = outcome at hok ⊢
  exact ⟨outcome.2, Prod.ext hok rfl⟩

/-- The counting program is compiled. -/
lemma exists_countdown_compiled :
    ∃ c, compile (Program.ofDefinitions countdown) .codegen = .ok c := by
  have hok : (compile (Program.ofDefinitions countdown) .codegen).isOk = true := by
    decide +kernel
  exact exists_ok_of_isOk hok

/-- The counting program meets no internal error. -/
theorem Program.no_internal_error_countdown :
    ∃ types, (ofDefinitions countdown).declare.runOn .predefined = (.ok (), countdownTables) ∧
      (ofDefinitions countdown).check countdownTables = .ok types ∧
      ∀ t, (ofDefinitions countdown).allocate.runOn countdownTables = (.ok (), t) →
        ∀ e, (ofDefinitions countdown).emit t types = .error e → e.cause = .registerOverflow := by
  obtain ⟨types, htypes⟩ := exists_countdown_checked
  obtain ⟨-, hemission⟩ :=
    no_internal_error countdown countdownTables types countdown_declared htypes
  exact ⟨types, countdown_declared, htypes, hemission⟩

/-- A pass leaves tables behind if it succeeds. -/
lemma Pass.tables_eq_ok {ε : Type} [Diagnostic ε] {pass : Pass ε Unit} {t' : Tables} :
    pass.tables t = .ok t' ↔ pass.runOn t = (.ok (), t') := by
  unfold Pass.tables
  rcases pass.runOn t with ⟨r, t₁⟩
  cases r <;> simp

/-- A pass that fails reports its fault, with the types that it leaves behind. -/
lemma Pass.tables_eq_error {ε : Type} [Diagnostic ε] {pass : Pass ε Unit} {f : Failure} :
    pass.tables t = .error f ↔
      ∃ e t', pass.runOn t = (.error e, t') ∧ f = .ofLocated t'.types e := by
  unfold Pass.tables
  rcases pass.runOn t with ⟨r, t'⟩
  cases r <;> simp [eq_comm]

/-- A result is reported if it is there. -/
lemma reportFailure_eq_ok {ε α : Type} [Diagnostic ε] {r : Except (Located ε) α} {a : α} :
    reportFailure t r = .ok a ↔ r = .ok a := by
  unfold reportFailure
  cases r <;> simp [Except.mapError]

/-- A fault is reported if there is no result. -/
lemma reportFailure_eq_error {ε α : Type} [Diagnostic ε] {r : Except (Located ε) α} {f : Failure} :
    reportFailure t r = .error f ↔ ∃ e, r = .error e ∧ f = .ofLocated t.types e := by
  unfold reportFailure
  cases r <;> simp [Except.mapError, eq_comm]

/-- A sequence succeeds for some result if both of its parts do. -/
private lemma exists_bind_eq_ok {ε α β : Type} {x : Except ε α} {f : α → Except ε β} :
    (∃ b, (x >>= f) = .ok b) ↔ ∃ a, x = .ok a ∧ ∃ b, f a = .ok b := by
  simp only [bind_eq_ok]
  constructor
  · rintro ⟨b, a, ha, hb⟩
    exact ⟨a, ha, b, hb⟩
  · rintro ⟨a, ha, b, hb⟩
    exact ⟨b, a, ha, hb⟩

/-- A sequence that ends with a result succeeds. -/
private lemma exists_pure_eq_ok {ε α : Type} {a : α} : ∃ b, (pure a : Except ε α) = .ok b :=
  ⟨a, rfl⟩

/-- A compilation succeeds if and only if the passes up to its stage do. -/
lemma exists_compile_eq_ok {stage : Stage} : (∃ c, compile p stage = .ok c) ↔
    ∃ declared, p.declare.runOn .predefined = (.ok (), declared) ∧
      (1 ≤ stage.rank → ∃ types, p.check declared = .ok types ∧
        (2 ≤ stage.rank → ∃ allocated, p.allocate.runOn declared = (.ok (), allocated) ∧
          (3 ≤ stage.rank → ∃ assembly, p.emit allocated types = .ok assembly))) := by
  unfold compile
  rw [exists_bind_eq_ok]
  simp only [Pass.tables_eq_ok]
  refine exists_congr fun declared => and_congr_right fun _ => ?_
  cases stage <;>
    simp only [exists_bind_eq_ok, exists_pure_eq_ok, Pass.tables_eq_ok, reportFailure_eq_ok,
      reduceCtorEq, if_true, if_false, and_true, Stage.rank, Nat.le_refl, Nat.reduceLeDiff,
      true_implies, false_implies]

/-- A program that is compiled up to its frames goes through the passes before. -/
lemma Program.exists_passes (h : (compile p .vars).isOk = true) : ∃ declared types allocated,
    p.declare.runOn .predefined = (.ok (), declared) ∧ p.check declared = .ok types ∧
      p.allocate.runOn declared = (.ok (), allocated) := by
  obtain ⟨declared, hdeclared, hrest⟩ := exists_compile_eq_ok.mp (exists_ok_of_isOk h)
  obtain ⟨types, hchecked, hlast⟩ := hrest (by decide)
  obtain ⟨allocated, hallocated, -⟩ := hlast (by decide)
  exact ⟨declared, types, allocated, hdeclared, hchecked, hallocated⟩

/-- A complete compilation succeeds if all of its stages do. -/
lemma compile_eq_ok {c : Compilation} : compile p .codegen = .ok c ↔
    ∃ declared types allocated assembly, p.declare.runOn .predefined = (.ok (), declared) ∧
      p.check declared = .ok types ∧ p.allocate.runOn declared = (.ok (), allocated) ∧
      p.emit allocated types = .ok assembly ∧ c = ⟨.codegen, allocated, some types, some assembly⟩ := by
  unfold compile
  simp only [bind_eq_ok, Pass.tables_eq_ok, reportFailure_eq_ok, reduceCtorEq, if_false]
  constructor
  · rintro ⟨declared, hdeclared, types, hchecked, allocated, hallocated, assembly, hemitted, hc⟩
    cases hc
    exact ⟨declared, types, allocated, assembly, hdeclared, hchecked, hallocated, hemitted, rfl⟩
  · rintro ⟨declared, types, allocated, assembly, hdeclared, hchecked, hallocated, hemitted, rfl⟩
    exact ⟨declared, hdeclared, types, hchecked, allocated, hallocated, assembly, hemitted, rfl⟩

/-- A compilation that succeeds gives the code of the closed form. -/
theorem compile_code {c : Compilation}
    (h : compile (Program.ofDefinitions definitions) .codegen = .ok c) :
    c.assembly = some ⟨(Program.ofDefinitions definitions).code,
      (Program.ofDefinitions definitions).need⟩ ∧
    (Program.ofDefinitions definitions).need ≤ bankSize ∧
    ∃ types, (Program.ofDefinitions definitions).Ready c.tables types := by
  obtain ⟨declared, types, allocated, assembly, hdeclared, hchecked, hallocated, hemitted, rfl⟩ :=
    compile_eq_ok.mp h
  have hready := Program.ready hdeclared hchecked hallocated
  rcases hready.emit_eq with ⟨hfits, hok⟩ | ⟨e, -, he⟩
  · rw [hok] at hemitted
    cases hemitted
    exact ⟨rfl, hfits, types, hready⟩
  · rw [he] at hemitted
    cases hemitted

end

end TreeCompiler
