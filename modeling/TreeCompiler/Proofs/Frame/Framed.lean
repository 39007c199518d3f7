import TreeCompiler.Proofs.Emission.Program

/-!
# Frames as the text says

The frame of a procedure that is laid out can be read off the text of the program: the layout, the
offsets of the parameters that callers see, and the places of all variables (`Procedure.Framed`).  So
two programs that agree about what the text depends on give a procedure the same frame.
-/

namespace TreeCompiler

/-- The layout of the frame of a procedure. -/
def Procedure.frameLayout (names : List (String × ValueShape))
    (signature : String → Option (List Formal)) (q : Procedure) : FrameLayout where
  arguments := some (Word.size * q.parameters.length)
  locals := some (q.localBytes names)
  outgoing := some (if q.calls.isEmpty then .noCalls else .bytes (q.outgoingBytes signature))

/-- Two programs give a procedure the same frame: the layout is the same, and so are the offsets of
the parameters and of all variables. -/
def Procedure.SameFrame (q : Procedure) (t t' : Tables) : Prop :=
  ∃ e e', t.procedure? q.name = some e ∧ t'.procedure? q.name = some e' ∧
    e'.layout = e.layout ∧ e'.parameters.map Slot.offset = e.parameters.map Slot.offset ∧
    ∀ d ∈ q.decls, ∃ offset, t.Places e.scope d offset ∧ t'.Places e'.scope d offset

/-- The frame of a procedure is laid out as its text says. -/
structure Procedure.Framed (names : List (String × ValueShape))
    (signature : String → Option (List Formal)) (q : Procedure) (t : Tables)
    (e : ProcedureEntry) : Prop where
  entry : t.procedure? q.name = some e
  layout : e.layout = q.frameLayout names signature
  parameters : e.parameters.map Slot.offset = (wordsFrom 0 q.parameters.length).map some
  places : List.Forall₂ (t.Places e.scope) q.decls (q.offsets names)

/-- Procedures with frames as their text says have the same frame. -/
lemma Procedure.Framed.sameFrame {names : List (String × ValueShape)}
    {signature : String → Option (List Formal)} {q : Procedure} {t t' : Tables}
    {e e' : ProcedureEntry} (h : q.Framed names signature t e)
    (h' : q.Framed names signature t' e') : q.SameFrame t t' := by
  refine ⟨e, e', h.entry, h'.entry, h'.layout.trans h.layout.symm,
    h'.parameters.trans h.parameters.symm, fun d hd => ?_⟩
  obtain ⟨offset, -, hoffset⟩ := exists_of_forall₂ (forall₂_and h.places h'.places) hd
  exact ⟨offset, hoffset⟩

/-- The frames of a program are laid out as the text of its procedures says. -/
lemma Tables.LaidOut.exists_framed {p : Program} {t : Tables} {q : Procedure} (h : t.LaidOut p)
    (hq : q ∈ p.procedures) : ∃ e, q.Framed p.typeNames p.signature t e := by
  obtain ⟨e, hlaysOut⟩ := h.procedures q hq
  have hdeclares := h.belongTo.declares hq hlaysOut.bound
  obtain ⟨hoffsets, harguments⟩ := hlaysOut.arguments
  rw [hdeclares.length_parameters] at hoffsets harguments
  obtain ⟨area, sizes, harea, hnone, hsizes, hsize⟩ := hlaysOut.outgoing
  have houtgoing : area =
      if q.calls.isEmpty then .noCalls else .bytes (q.outgoingBytes p.signature) := by
    split
    · rename_i hempty
      exact hnone.mp (List.isEmpty_iff.mp hempty)
    · rename_i hcalls
      cases area with
      | noCalls => exact absurd (List.isEmpty_iff.mpr (hnone.mpr rfl)) hcalls
      | bytes size =>
        rw [h.outgoing_eq hsizes] at hsize
        exact congrArg OutgoingArea.bytes hsize
  refine ⟨e, Tables.procedure?_eq_some.mpr hlaysOut.bound, ?_, hoffsets, hlaysOut.places⟩
  have hlayout : e.layout = ⟨e.layout.arguments, e.layout.locals, e.layout.outgoing⟩ := rfl
  rw [hlayout, harguments, hlaysOut.locals, harea, houtgoing]
  rfl

end TreeCompiler
