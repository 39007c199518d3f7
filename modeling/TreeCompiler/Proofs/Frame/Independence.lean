import TreeCompiler.Proofs.Frame.Framed
import TreeCompiler.Proofs.Typing.Decision
import TreeCompiler.Proofs.Typing.Erasure

/-!
# Frames do not depend on earlier frames

Laying out the frames of a program writes places and sizes into the tables, and nothing else
(`Program.allocate_keeps`).  Two tables that differ in what is written there at most
(`Tables.SameButFrames`) end alike: with the same result, which can be told from the text and from what
erasure leaves (`Program.allocate_result`), and with the same tables if the frames are laid out, because
these say everything about what could differ (`Tables.SameButFrames.eq_of_laidOut`).  So a second run
after a successful one changes nothing (`Program.allocate_independent`).
-/

namespace TreeCompiler

/-! ### Tables that differ in frames -/

/-- The entry of a procedure without the places of its parameters and the size of its argument area. -/
def ProcedureEntry.eraseArguments (e : ProcedureEntry) : ProcedureEntry :=
  { e with parameters := e.parameters.map Slot.erase, layout := { e.layout with arguments := none } }

/-- The entry without places of parameters and sizes of argument areas. -/
def Entry.eraseArguments : Entry → Entry
  | .procedure e => .procedure e.eraseArguments
  | entry => entry

/-- Entries of procedures that tell the same about all but arguments have the same erasure. -/
lemma ProcedureEntry.erase_of_eraseArguments {e e' : ProcedureEntry}
    (h : e'.eraseArguments = e.eraseArguments) : e'.erase = e.erase := by
  have hcleared := congrArg (fun e : ProcedureEntry => { e with layout := {} }) h
  exact hcleared

/-- Entries of procedures that tell the same about all but arguments are the same if they place the
arguments alike. -/
lemma ProcedureEntry.eq_of_eraseArguments {e e' : ProcedureEntry}
    (h : e'.eraseArguments = e.eraseArguments)
    (hoffsets : e'.parameters.map Slot.offset = e.parameters.map Slot.offset)
    (harguments : e'.layout.arguments = e.layout.arguments) : e' = e := by
  have hlayout : e'.layout = e.layout := by
    have hfield := congrArg ProcedureEntry.layout h
    unfold eraseArguments at hfield
    dsimp only at hfield
    rw [FrameLayout.mk.injEq] at hfield
    cases hl : e.layout
    cases hl' : e'.layout
    rw [hl, hl'] at hfield harguments
    obtain ⟨-, rfl, rfl⟩ := hfield
    cases harguments
    rfl
  exact ProcedureEntry.eq_of_erase (erase_of_eraseArguments h) hlayout hoffsets

namespace Tables

/-- Two tables are the same but for the frames of a program.  They may differ in the places of the
variables of the program's procedures and in the layouts of these procedures, and for all other
procedures, which are those of the runtime library, in the places of the parameters and the size of the
argument area. -/
structure SameButFrames (p : Program) (t t' : Tables) : Prop where
  erase : t'.erase = t.erase
  scopes : ∀ id, id ≠ .global →
    (∀ q ∈ p.procedures, ∀ e, t.procedure? q.name = some e → e.scope ≠ id) →
    t'.scope? id = t.scope? id
  others : ∀ n, (∀ q ∈ p.procedures, q.name ≠ n) →
    (t'.binding? .global n).map Entry.eraseArguments =
      (t.binding? .global n).map Entry.eraseArguments

variable {p : Program} {start t t' : Tables} {q : Procedure} {e : ProcedureEntry} {name : String}

/-- Tables are the same as themselves. -/
lemma SameButFrames.refl (p : Program) (t : Tables) : t.SameButFrames p t :=
  ⟨rfl, fun _ _ _ => rfl, fun _ _ => rfl⟩

/-- A variable of a procedure of the program may get a place. -/
lemma SameButFrames.setOffset (h : start.SameButFrames p t) (hq : q ∈ p.procedures)
    (he : start.procedure? q.name = some e) (hinside : e.scope ≠ .global) {offset : Int} :
    start.SameButFrames p (t.setOffset e.scope name offset) := by
  refine ⟨erase_setOffset.trans h.erase, fun id hid hother => ?_, fun n hn => ?_⟩
  · have hne : id ≠ e.scope := (hother q hq e he).symm
    rw [← h.scopes id hid hother]
    exact scope?_modifyEntry_of_ne hne
  · rw [binding?_setOffset_of_ne (.inl hinside.symm)]
    exact h.others n hn

/-- The layout of a procedure of the program may change. -/
lemma SameButFrames.modifyLayout (h : start.SameButFrames p t) (hq : q ∈ p.procedures)
    {f : ProcedureEntry → ProcedureEntry} (hf : ∀ e, (f e).erase = e.erase) :
    start.SameButFrames p (t.modifyProcedure q.name f) := by
  refine ⟨(erase_modifyProcedure fun e _ => hf e).trans h.erase, fun id hid hother => ?_,
    fun n hn => ?_⟩
  · rw [← h.scopes id hid hother]
    exact scope?_modifyEntry_of_ne hid
  · rw [binding?_modifyProcedure_of_ne (.inr (hn q hq).symm)]
    exact h.others n hn

/-- The arguments of any procedure may be placed anew. -/
lemma SameButFrames.modifyArguments (h : start.SameButFrames p t)
    {f : ProcedureEntry → ProcedureEntry}
    (hf : ∀ e, t.binding? .global name = some (.procedure e) →
      (f e).eraseArguments = e.eraseArguments) :
    start.SameButFrames p (t.modifyProcedure name f) := by
  have herase := erase_modifyProcedure fun e he => ProcedureEntry.erase_of_eraseArguments (hf e he)
  refine ⟨herase.trans h.erase, fun id hid hother => ?_, fun n hn => ?_⟩
  · rw [← h.scopes id hid hother]
    exact scope?_modifyEntry_of_ne hid
  · rw [← h.others n hn]
    by_cases hname : n = name
    · subst hname
      cases hbound : t.binding? .global n with
      | none =>
        unfold modifyProcedure
        rw [binding?_modifyEntry, if_pos ⟨rfl, rfl⟩, hbound]
        rfl
      | some entry =>
        unfold modifyProcedure
        rw [binding?_modifyEntry, if_pos ⟨rfl, rfl⟩, hbound, Option.map_some, Option.map_some,
          Option.map_some]
        cases entry with
        | procedure e => exact congrArg (fun e => some (Entry.procedure e)) (hf e hbound)
        | type => rfl
        | var => rfl
    · rw [binding?_modifyProcedure_of_ne (.inr hname)]

/-- A procedure has the same scope in both tables. -/
lemma SameButFrames.scope_eq (h : start.SameButFrames p t) (he : start.procedure? name = some e)
    {e' : ProcedureEntry} (he' : t.procedure? name = some e') : e'.scope = e.scope := by
  obtain ⟨e₀, he₀, herase⟩ := binding?_procedure_of_erase h.erase.symm (procedure?_eq_some.mp he')
  rw [procedure?_eq_some.mp he] at he₀
  cases he₀
  exact (ProcedureEntry.scope_eq_of_erase herase).symm

end Tables

/-! ### What laying out frames may write -/

section
variable {p : Program} {start : Tables} {q : Procedure} {e : ProcedureEntry} {procedure : String}

/-- Placing parameters changes only their places, also where it stops early. -/
lemma map_erase_placeParameters {types : TypeTable} {offset : Int} {l : List Slot} :
    (placeParameters types offset l).1.map Slot.erase = l.map Slot.erase := by
  induction l generalizing offset with
  | nil => rfl
  | cons s rest ih =>
    rw [placeParameters]
    split
    · rfl
    · rw [List.map_cons, List.map_cons, ih]
      rfl

/-- Placing the arguments of a procedure writes only what may differ. -/
lemma keeps_allocateArguments (p : Program) (start : Tables) (name : String) :
    (allocateArguments name).Keeps (start.SameButFrames p) := by
  unfold allocateArguments
  refine Step.keeps_get_bind fun t ht => ?_
  cases he : t.procedure? name with
  | none => exact ht
  | some entry =>
    have herase : (placeParameters t.types 0 entry.parameters).1.map Slot.erase =
        entry.parameters.map Slot.erase := map_erase_placeParameters
    have hentry : ∀ e, t.binding? .global name = some (.procedure e) → e = entry := by
      intro e he'
      rw [Tables.procedure?_eq_some.mp he] at he'
      cases he'
      rfl
    dsimp only
    rcases hplaced : placeParameters t.types 0 entry.parameters with ⟨placed, stop⟩
    rw [hplaced] at herase
    cases stop with
    | none =>
      refine ht.modifyArguments fun e he' => ?_
      rw [hentry e he', ProcedureEntry.eraseArguments, herase]
      rfl
    | some size =>
      refine ht.modifyArguments fun e he' => ?_
      rw [hentry e he', ProcedureEntry.eraseArguments, herase]
      rfl

/-- Finding a variable writes nothing. -/
lemma keeps_ownVariable {inv : Tables → Prop} {scope : ScopeId} {name : String} :
    (ownVariable procedure scope name).Keeps inv := by
  unfold ownVariable
  refine Step.keeps_get_bind fun t ht => ?_
  split
  · exact ht
  · exact ht

section
variable {inv : Tables → Prop} {scope : ScopeId}

/-- Giving parameters their places keeps what setting an offset in their scope keeps. -/
lemma keeps_setOffsets
    (hplace : ∀ t name offset, inv t → inv (t.setOffset scope name offset)) (l : List Parameter)
    (offsets : List Int) : (setOffsets procedure scope l offsets).Keeps inv := by
  induction l generalizing offsets with
  | nil => exact fun _ ht => ht
  | cons x rest ih =>
    cases offsets with
    | nil => exact fun _ ht => ht
    | cons offset offsets =>
      have hset : (modify (·.setOffset scope x.name offset) : Step FrameError Unit).Keeps inv :=
        Step.keeps_modify fun t ht => hplace t x.name offset ht
      exact keeps_ownVariable.bind fun _ => hset.bind fun _ => ih offsets

/-- Placing local variables keeps what setting an offset in their scope keeps. -/
lemma keeps_placeLocals
    (hplace : ∀ t name offset, inv t → inv (t.setOffset scope name offset)) (offset : Int)
    (l : List LocalVar) : (placeLocals procedure scope offset l).Keeps inv := by
  induction l generalizing offset with
  | nil => exact fun _ ht => ht
  | cons v rest ih =>
    refine keeps_ownVariable.bind fun slot => Step.keeps_get_bind fun t ht => ?_
    split
    · exact ht
    · rename_i next _
      have hset : (modify (·.setOffset scope v.name next) : Step FrameError Unit).Keeps inv :=
        Step.keeps_modify fun t ht => hplace t v.name next ht
      exact (hset.bind fun _ => ih next) t ht

/-- Placing the variables of a procedure keeps what is kept by placing its arguments, by setting
offsets in its scope, and by changing its layout. -/
lemma Procedure.keeps_allocateVariables (harguments : (allocateArguments q.name).Keeps inv)
    (hplace : ∀ t e, inv t → t.procedure? q.name = some e →
      ∀ t' name offset, inv t' → inv (t'.setOffset e.scope name offset))
    (hlayout : ∀ t f, (∀ e, ProcedureEntry.erase (f e) = e.erase) → inv t →
      inv (t.modifyProcedure q.name f)) : q.allocateVariables.Keeps inv := by
  unfold allocateVariables
  refine harguments.bind fun offsets => Step.keeps_get_bind fun t ht => ?_
  split
  · exact ht
  rename_i entry hentry
  refine ((keeps_setOffsets (hplace t entry ht hentry) _ _).bind fun _ =>
    (keeps_placeLocals (hplace t entry ht hentry) _ _).bind fun lowest => ?_) t ht
  split
  · exact fun _ ht => ht
  rename_i size _
  have hset : (modify (·.modifyProcedure q.name fun e =>
      { e with layout := { e.layout with locals := some size } }) : Step FrameError Unit).Keeps inv :=
    Step.keeps_modify fun t ht => hlayout t _ (fun _ => rfl) ht
  refine hset.bind fun _ => Step.keeps_get_bind fun t ht => ?_
  split
  · exact ht
  · split
    · exact ht
    · exact ht

/-- Allocating the area for outgoing arguments keeps what changing the layout keeps. -/
lemma Procedure.keeps_allocateOutgoing
    (hlayout : ∀ t f, (∀ e, ProcedureEntry.erase (f e) = e.erase) → inv t →
      inv (t.modifyProcedure q.name f)) : q.allocateOutgoing.Keeps inv := by
  unfold allocateOutgoing
  refine Step.keeps_get_bind fun t ht => ?_
  split
  · exact ht
  · split
    · exact ht
    · rw [Step.ends_bind, Step.ends_set]
      split
      · exact hlayout t _ (fun _ => rfl) ht
      · exact hlayout t _ (fun _ => rfl) ht

/-- Laying out the frames of a program keeps what is kept by each thing that it writes. -/
lemma Program.keeps_allocate (harguments : ∀ name, (allocateArguments name).Keeps inv)
    (hplace : ∀ q ∈ p.procedures, ∀ t e, inv t → t.procedure? q.name = some e →
      ∀ t' name offset, inv t' → inv (t'.setOffset e.scope name offset))
    (hlayout : ∀ q ∈ p.procedures, ∀ t f, (∀ e, ProcedureEntry.erase (f e) = e.erase) → inv t →
      inv (t.modifyProcedure q.name f)) : p.allocate.Keeps inv := by
  have hvariables : ∀ q ∈ p.procedures, q.allocateVariables.Keeps inv := fun q hq =>
    Procedure.keeps_allocateVariables (harguments q.name) (hplace q hq) (hlayout q hq)
  have houtgoing : ∀ q ∈ p.procedures, q.allocateOutgoing.Keeps inv := fun q hq =>
    Procedure.keeps_allocateOutgoing (hlayout q hq)
  unfold allocate
  exact (Step.keeps_forM fun r _ => (harguments r.name).discard.nowhere).bind
    fun _ => (Step.keeps_forM fun q hq => (hvariables q hq).atLine q.mark.line).bind
    fun _ => Step.keeps_forM fun q hq => (houtgoing q hq).atLine q.mark.line

end

/-- Laying out the frames of a program writes only what may differ, whether it succeeds or fails. -/
lemma Program.allocate_keeps (h : start.BelongTo p) :
    p.allocate.Keeps (start.SameButFrames p) := by
  refine keeps_allocate (keeps_allocateArguments p start) (fun q hq t e ht he t' name offset ht' => ?_)
    fun q hq t f hf ht => ht.modifyLayout hq hf
  obtain ⟨e₀, he₀⟩ := h.declared q hq
  rw [ht.scope_eq (Tables.procedure?_eq_some.mpr he₀.bound) he]
  exact ht'.setOffset hq (Tables.procedure?_eq_some.mpr he₀.bound) (h.inside _ _ he₀.bound).1

/-- Laying out the frames of any program in any tables writes only what erasure hides, whether it
succeeds or fails. -/
lemma Program.allocate_keeps_erase (p : Program) (start : Tables) :
    p.allocate.Keeps fun t => t.erase = start.erase := by
  refine keeps_allocate (fun name t ht => ?_)
    (fun q _ t e _ _ t' name offset ht' => Tables.erase_setOffset.trans ht')
    fun q _ t f hf ht => (Tables.erase_modifyProcedure fun e _ => hf e).trans ht
  exact (keeps_allocateArguments p t name t (.refl p t)).mono
    (fun _ _ h => h.erase.trans ht) fun _ _ h => h.erase.trans ht

end

/-! ### What frames that are laid out leave open -/

section
variable {p : Program} {start t t' : Tables} {n : String}

/-- The global scope binds a name to the same entry once frames are laid out. -/
lemma Tables.SameButFrames.binding?_global (h : start.SameButFrames p t)
    (h' : start.SameButFrames p t') (hlaid : t.LaidOut p) (hlaid' : t'.LaidOut p) :
    t'.binding? .global n = t.binding? .global n := by
  refine binding?_eq_of_erase (h'.erase.trans h.erase.symm) fun x x' hx hx' herase => ?_
  cases x with
  | type id => exact Entry.erase_eq_type herase
  | var slot => exact absurd hx (hlaid.belongTo.noVariable n slot)
  | procedure e =>
    obtain ⟨e', rfl, hentry⟩ := Entry.erase_eq_procedure herase
    congr 1
    by_cases hown : ∃ q ∈ p.procedures, q.name = n
    · obtain ⟨q, hq, rfl⟩ := hown
      obtain ⟨d, hd⟩ := hlaid.exists_framed hq
      obtain ⟨d', hd'⟩ := hlaid'.exists_framed hq
      have hfound := hd.entry
      have hfound' := hd'.entry
      rw [procedure?_eq_some.mpr hx, Option.some.injEq] at hfound
      rw [procedure?_eq_some.mpr hx', Option.some.injEq] at hfound'
      subst hfound hfound'
      exact ProcedureEntry.eq_of_erase hentry (hd'.layout.trans hd.layout.symm)
        (hd'.parameters.trans hd.parameters.symm)
    · have hothers : ∀ q ∈ p.procedures, q.name ≠ n := fun q hq hn => hown ⟨q, hq, hn⟩
      have hsame := (h'.others n hothers).trans (h.others n hothers).symm
      rw [hx, hx', Option.map_some, Option.map_some, Option.some.injEq] at hsame
      obtain ⟨⟨hoffsets, harguments⟩, -⟩ := hlaid.signature_eq hx
      obtain ⟨⟨hoffsets', harguments'⟩, -⟩ := hlaid'.signature_eq hx'
      have hlength : e'.parameters.length = e.parameters.length := by
        rw [← List.length_map Slot.erase, ProcedureEntry.parameters_eq_of_erase hentry,
          List.length_map]
      rw [hlength] at hoffsets' harguments'
      exact ProcedureEntry.eq_of_eraseArguments (Entry.procedure.inj hsame)
        (hoffsets'.trans hoffsets.symm) (harguments'.trans harguments.symm)

/-- The scope of a procedure is the same once frames are laid out. -/
lemma Tables.LaidOut.scope?_eq {q : Procedure} {e : ProcedureEntry} (hq : q ∈ p.procedures)
    (he : t.binding? .global q.name = some (.procedure e)) (hlaid : t.LaidOut p)
    (hlaid' : t'.LaidOut p) (herase : t'.erase = t.erase) : t'.scope? e.scope = t.scope? e.scope := by
  have hdeclares := hlaid.belongTo.declares hq he
  obtain ⟨symbols, hscope, hsymbols⟩ := hdeclares.symbols
  have hnodup : (t.scope e.scope).names.Nodup := by
    rw [scope_of_scope? hscope, Scope.names_eq_of_declares hsymbols]
    exact hdeclares.nodup
  refine scope?_eq_of_erase herase hnodup fun n => binding?_eq_of_erase herase
    fun x x' hx hx' hentry => ?_
  obtain ⟨d, hd, rfl, slot, rfl, -⟩ := hdeclares.binding?_eq_some hx
  obtain ⟨slot', rfl, hslot⟩ := Entry.erase_eq_var hentry
  -- the text places the variable, so that both slots have the same offset
  obtain ⟨f, hf⟩ := hlaid.exists_framed hq
  obtain ⟨f', hf'⟩ := hlaid'.exists_framed hq
  have hentry := procedure?_eq_some.mp hf.entry
  rw [he] at hentry
  cases hentry
  obtain ⟨e₀, he₀, hsame⟩ := binding?_procedure_of_erase herase.symm (procedure?_eq_some.mp hf'.entry)
  rw [he] at he₀
  cases he₀
  obtain ⟨offset, -, ⟨s, hs, hoffset⟩, s', hs', hoffset'⟩ :=
    exists_of_forall₂ (forall₂_and hf.places hf'.places) hd
  rw [hx] at hs
  cases hs
  rw [← ProcedureEntry.scope_eq_of_erase hsame, hx'] at hs'
  cases hs'
  rw [Slot.eq_of_erase hslot (hoffset'.trans hoffset.symm)]

/-- Tables that differ in frames at most are the same once frames are laid out. -/
lemma Tables.SameButFrames.eq_of_laidOut (h : start.SameButFrames p t)
    (h' : start.SameButFrames p t') (hnodup : (start.scope .global).names.Nodup)
    (hlaid : t.LaidOut p) (hlaid' : t'.LaidOut p) : t' = t := by
  have herase : t'.erase = t.erase := h'.erase.trans h.erase.symm
  refine eq_of_erase herase fun id => ?_
  by_cases hglobal : id = .global
  · subst hglobal
    rw [← names_of_erase h.erase] at hnodup
    exact scope?_eq_of_erase herase hnodup fun n => h.binding?_global h' hlaid hlaid'
  by_cases hown : ∃ q ∈ p.procedures, ∃ e, start.procedure? q.name = some e ∧ e.scope = id
  · obtain ⟨q, hq, e, he, rfl⟩ := hown
    obtain ⟨d, hdeclares⟩ := hlaid.belongTo.declared q hq
    rw [← h.scope_eq he (procedure?_eq_some.mpr hdeclares.bound)]
    exact hlaid.scope?_eq hq hdeclares.bound hlaid' herase
  · have hother : ∀ q ∈ p.procedures, ∀ e, start.procedure? q.name = some e → e.scope ≠ id :=
      fun q hq e he hid => hown ⟨q, hq, e, he, hid⟩
    rw [h'.scopes id hglobal hother, h.scopes id hglobal hother]

end

/-! ### Runs -/

/-- Laying out the frames of a program that is declared ends as the first fault says. -/
lemma Program.allocate_result {p : Program} {t : Tables} (h : t.BelongTo p) :
    (p.allocate.runOn t).1 = match p.frameFault? t with
      | none => .ok ()
      | some e => .error e := by
  have hends := allocate_faults h
  rcases hrun : p.allocate.runOn t with ⟨e | ⟨⟩, t'⟩
  · rw [hends.of_error hrun]
  · rw [(hends.of_ok hrun).1]

/-- Laying out the frames of a program does not depend on earlier frames and writes nothing but frames.
From tables that differ in frames at most it gives the same result, and the same tables if it succeeds;
so a second run after a successful one changes nothing.  Whether it succeeds or fails, the tables that
it leaves differ from those of the declarations in frames at most, and checking the program gives the
same as before. -/
theorem Program.allocate_independent (p : Program) (declared : Tables)
    (hdeclared : p.declare.runOn .predefined = (.ok (), declared)) :
    (∀ t, declared.SameButFrames p t →
      (p.allocate.runOn t).1 = (p.allocate.runOn declared).1 ∧
      ((p.allocate.runOn declared).1 = .ok () →
        p.allocate.runOn t = p.allocate.runOn declared)) ∧
    (∀ t, p.allocate.runOn declared = (.ok (), t) → p.allocate.runOn t = (.ok (), t)) ∧
    declared.SameButFrames p (p.allocate.runOn declared).2 ∧
    p.check (p.allocate.runOn declared).2 = p.check declared := by
  obtain ⟨-, hlists⟩ := p.declare_ends.of_ok hdeclared
  have hbelong : declared.BelongTo p := hlists.holds
  have hnodup : (declared.scope .global).names.Nodup := by
    rw [hlists.names]
    exact hlists.nodup
  have hkeeps : ∀ t, declared.SameButFrames p t →
      declared.SameButFrames p (p.allocate.runOn t).2 :=
    fun t ht => (allocate_keeps hbelong).outcome ht
  have hresult : ∀ t, declared.SameButFrames p t →
      (p.allocate.runOn t).1 = (p.allocate.runOn declared).1 := by
    intro t ht
    rw [allocate_result (hbelong.of_erase ht.erase.symm), allocate_result hbelong,
      frameFault?_of_erase ht.erase]
  have hsame : ∀ t, declared.SameButFrames p t → (p.allocate.runOn declared).1 = .ok () →
      p.allocate.runOn t = p.allocate.runOn declared := by
    intro t ht hok
    have hrun : p.allocate.runOn declared = (.ok (), (p.allocate.runOn declared).2) :=
      Prod.ext hok rfl
    have hrun' : p.allocate.runOn t = (.ok (), (p.allocate.runOn t).2) :=
      Prod.ext ((hresult t ht).trans hok) rfl
    have hlaid := (laidOut_of_allocate hbelong hrun).2
    have hlaid' := (laidOut_of_allocate (hbelong.of_erase ht.erase.symm) hrun').2
    have hfinal := hkeeps declared (.refl p declared)
    exact Prod.ext (hresult t ht) (hfinal.eq_of_laidOut (hkeeps t ht) hnodup hlaid hlaid')
  have hfinal := hkeeps declared (.refl p declared)
  refine ⟨fun t ht => ⟨hresult t ht, hsame t ht⟩, fun t hrun => ?_, hfinal,
    check_of_erase hfinal.erase p⟩
  rw [hrun] at hfinal
  rw [hsame t hfinal (congrArg Prod.fst hrun), hrun]

/-- The tables of the counting program with frames that mean nothing. -/
def scribbledTables : Tables :=
  (countdownTables.modifyProcedure "main" fun e => { e with layout := ⟨some 7, none, some .noCalls⟩ })
    |>.modifyProcedure "printi" fun e => { e with layout := { e.layout with arguments := some 1 } }

/-- Scribbled frames are laid out like those that have never been laid out, and a second run leaves them
as they are. -/
theorem Program.allocate_independent_countdown :
    (ofDefinitions countdown).declare.runOn .predefined = (.ok (), countdownTables) ∧
    countdownTables.SameButFrames (ofDefinitions countdown) scribbledTables ∧
    scribbledTables ≠ countdownTables ∧
    ∃ t, (ofDefinitions countdown).allocate.runOn countdownTables = (.ok (), t) ∧
      (ofDefinitions countdown).allocate.runOn scribbledTables = (.ok (), t) ∧
      (ofDefinitions countdown).allocate.runOn t = (.ok (), t) := by
  have hmain : ∃ q ∈ (ofDefinitions countdown).procedures, q.name = "main" := by
    decide +kernel
  have hne : scribbledTables ≠ countdownTables := by
    decide +kernel
  have hscribbled : countdownTables.SameButFrames (ofDefinitions countdown) scribbledTables := by
    obtain ⟨q, hq, hname⟩ := hmain
    have hlayout := (Tables.SameButFrames.refl (ofDefinitions countdown) countdownTables).modifyLayout
      hq (f := fun e => { e with layout := ⟨some 7, none, some .noCalls⟩ }) fun _ => rfl
    rw [hname] at hlayout
    exact hlayout.modifyArguments fun _ _ => rfl
  obtain ⟨hsame, hagain, -, -⟩ := allocate_independent _ _ countdown_declared
  obtain ⟨t, hrun⟩ := exists_countdown_allocated
  obtain ⟨-, hscribbledRun⟩ := hsame _ hscribbled
  exact ⟨countdown_declared, hscribbled, hne, t, hrun,
    (hscribbledRun (congrArg Prod.fst hrun)).trans hrun, hagain t hrun⟩

end TreeCompiler
