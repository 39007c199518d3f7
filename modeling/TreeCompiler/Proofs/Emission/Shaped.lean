import TreeCompiler.Proofs.Emission.Program

/-!
# Programs that have code

What the code of a program relies on, said about the program alone: the names of its procedures are
different, every variable has a shape that fits, every statement makes sense where it stands
(`Stmt.Shaped`), and the frames and registers suffice.  A program that is compiled with success is
`Program.Compilable`, so that nothing that is shown about code needs the tables of the passes.
-/

namespace TreeCompiler

/-! ### Statements that make sense -/

/-- A parameter takes an argument: their shapes agree, and a reference takes a variable. -/
def Formal.Accepts (places : List (String × Place)) (f : Formal) (argument : Expr) : Prop :=
  argument.shape? places = some f.shape ∧
    (f.isReference = true → argument.variable?.isSome = true)

section
variable (places : List (String × Place)) (signature : String → Option (List Formal))

/-- The statements whose expressions have the shapes that are asked for. -/
inductive Stmt.Shaped : Stmt → Prop
  | empty {mark : Mark} : Stmt.Shaped (.empty mark)
  | block {mark : Mark} {body : List Stmt} :
      (∀ s ∈ body, Stmt.Shaped s) → Stmt.Shaped (.block mark body)
  | assign {mark : Mark} {target : Variable} {value : Expr} :
      target.shape? places = some .int → value.shape? places = some .int →
      Stmt.Shaped (.assign mark target value)
  | ifThen {mark : Mark} {test : Expr} {thenPart : Stmt} :
      test.shape? places = some .bool → Stmt.Shaped thenPart →
      Stmt.Shaped (.ifThen mark test thenPart)
  | ifThenElse {mark : Mark} {test : Expr} {thenPart elsePart : Stmt} :
      test.shape? places = some .bool → Stmt.Shaped thenPart → Stmt.Shaped elsePart →
      Stmt.Shaped (.ifThenElse mark test thenPart elsePart)
  | loop {mark : Mark} {test : Expr} {body : Stmt} :
      test.shape? places = some .bool → Stmt.Shaped body →
      Stmt.Shaped (.loop mark test body)
  | call {mark : Mark} {callee : String} {arguments : List Expr} {formals : List Formal} :
      signature callee = some formals → List.Forall₂ (Formal.Accepts places) formals arguments →
      Stmt.Shaped (.call mark callee arguments)

end

section
variable {tables : Tables} {scope : ScopeId} {places : List (String × Place)}
  {signature : String → Option (List Formal)}

/-- A truth value is of that shape. -/
lemma Expr.HasType.shape?_bool (hshows : tables.Shows scope places signature) {e : Expr}
    (he : e.HasType tables scope .bool) : e.shape? places = some .bool := by
  obtain ⟨s, hs, htype⟩ := he.shape?_eq hshows
  rw [TypeTable.shape?_bool] at htype
  cases htype
  exact hs

/-- A variable that is an integer is of that shape. -/
lemma Variable.HasType.shape?_int (hshows : tables.Shows scope places signature) {v : Variable}
    (hv : v.HasType tables scope .int) : v.shape? places = some .int := by
  obtain ⟨s, hs, htype⟩ := hv.shape?_eq hshows
  rw [TypeTable.shape?_int] at htype
  cases htype
  exact hs

/-- Arguments that fit the parameters of an entry fit the parameters of its signature. -/
lemma forall₂_formalAccepts (hshows : tables.Shows scope places signature) {slots : List Slot}
    {arguments : List Expr} {formals : List Formal}
    (haccepts : List.Forall₂ (Slot.Accepts tables scope) slots arguments)
    (hformals : List.Forall₂ (fun slot f => slot.isReference = f.isReference ∧
      tables.types.shape? slot.type = some f.shape) slots formals) :
    List.Forall₂ (Formal.Accepts places) formals arguments := by
  induction haccepts generalizing formals with
  | nil =>
    cases hformals
    exact .nil
  | cons haccept _ ih =>
    obtain ⟨f, rest, hf, hrest, rfl⟩ := List.forall₂_cons_left_iff.mp hformals
    obtain ⟨htype, hvariable⟩ := haccept
    obtain ⟨s, hs, hshape⟩ := htype.shape?_eq hshows
    rw [hf.2] at hshape
    cases hshape
    exact .cons ⟨hs, hf.1 ▸ hvariable⟩ (ih hrest)

/-- A statement that obeys the typing rules makes sense. -/
lemma Stmt.WellTyped.shaped (hshows : tables.Shows scope places signature) {s : Stmt}
    (hs : s.WellTyped tables scope) : s.Shaped places signature := by
  induction hs with
  | empty => exact .empty
  | block _ ih => exact .block ih
  | assign htarget hvalue => exact .assign (htarget.shape?_int hshows) (hvalue.shape?_int hshows)
  | ifThen htest _ ih => exact .ifThen (htest.shape?_bool hshows) ih
  | ifThenElse htest _ _ ihThen ihElse =>
    exact .ifThenElse (htest.shape?_bool hshows) ihThen ihElse
  | loop htest _ ih => exact .loop (htest.shape?_bool hshows) ih
  | call hcallee harguments =>
    obtain ⟨-, -, formals, hsignature, hformals⟩ := hshows.procedure _ _ hcallee
    exact .call hsignature (forall₂_formalAccepts hshows harguments hformals)

end

/-! ### Programs that make sense -/

/-- A program that is compiled makes sense: procedures and variables are told apart by their names,
variables have shapes, statements make sense where they stand, and frames and registers suffice. -/
structure Program.Compilable (p : Program) : Prop where
  names : (runtimeProcedures.map RuntimeProcedure.name ++
    p.procedures.map Procedure.name).Nodup
  main : ∃ q ∈ p.procedures, q.name = mainName ∧ q.parameters = []
  declNames : ∀ q ∈ p.procedures, (q.decls.map VariableDecl.name).Nodup
  shapes : ∀ q ∈ p.procedures, ∀ d ∈ q.decls, ∃ s, d.type.shape? p.typeNames = some s ∧ s.Fits
  scalar : ∀ q ∈ p.procedures, ∀ x ∈ q.parameters, x.isReference = false →
    ∀ s, x.type.shape? p.typeNames = some s → s.isScalar = true
  shaped : ∀ q ∈ p.procedures, ∀ s ∈ q.body, s.Shaped (q.places p.typeNames) p.signature
  frames : ∀ q ∈ p.procedures, (q.frameBytes p.typeNames p.signature : Int) ≤ Word.max
  registers : p.need ≤ bankSize

section
variable {p : Program} {t : Tables} {q : Procedure} {e : ProcedureEntry}

/-- A frame that is laid out is not larger than the largest word. -/
lemma Tables.LaidOut.frameBytes_le (h : t.LaidOut p) (hlaysOut : t.LaysOut p.typeNames q e) :
    (q.frameBytes p.typeNames p.signature : Int) ≤ Word.max := by
  obtain ⟨area, -, harea, -⟩ := hlaysOut.outgoing
  obtain ⟨-, -, -, hfits⟩ :=
    (FrameLayout.frameSize_eq_some hlaysOut.locals harea).mp (h.layout_eq hlaysOut).1
  exact hfits

/-- The variables of a declared procedure have shapes that fit. -/
lemma Tables.Declares.shapes {names : List (String × ValueShape)} (h : t.Declares names q e)
    (hwf : t.types.WellFormed) : ∀ d ∈ q.decls, ∃ s, d.type.shape? names = some s ∧ s.Fits := by
  obtain ⟨symbols, -, hsymbols⟩ := h.symbols
  generalize q.decls = decls at hsymbols
  intro d hd
  induction hsymbols with
  | nil => cases hd
  | cons hx _ ih =>
    rcases List.mem_cons.mp hd with rfl | hd
    · obtain ⟨-, slot, -, -, s, hs, hshape⟩ := hx
      exact ⟨s, hs, hwf.fits hshape⟩
    · exact ih hd

/-- The main procedure of the tables is one of the program, without parameters. -/
lemma Tables.BelongTo.exists_main (h : t.BelongTo p) (hmain : t.HasMain) :
    ∃ q ∈ p.procedures, q.name = mainName ∧ q.parameters = [] := by
  obtain ⟨e, hentry, hparameters⟩ := hmain
  have he := Tables.procedure?_eq_some.mp hentry
  have hforeign : ∀ r ∈ runtimeProcedures, r.name ≠ mainName := by decide
  rcases h.origin mainName e he with ⟨r, hr, hname⟩ | ⟨q, hq, hname⟩
  · exact absurd hname (hforeign r hr)
  · rw [← hname] at he
    have hslots := (h.declares hq he).parameters
    rw [hparameters, List.forall₂_nil_left_iff, List.map_eq_nil_iff] at hslots
    exact ⟨q, hq, hname, hslots⟩

/-- A program that is ready to be emitted makes sense if the registers suffice. -/
lemma Program.Ready.compilable {types : Annotations} (h : p.Ready t types)
    (hregisters : p.need ≤ bankSize) : p.Compilable := by
  have hbelong := h.laidOut.belongTo
  refine ⟨hbelong.nodup, hbelong.exists_main h.main, fun q hq => ?_, fun q hq => ?_,
    fun q hq => ?_, fun q hq s hs => ?_, fun q hq => ?_, hregisters⟩
  · obtain ⟨e, hdeclares⟩ := hbelong.declared q hq
    exact hdeclares.nodup
  · obtain ⟨e, hdeclares⟩ := hbelong.declared q hq
    exact hdeclares.shapes hbelong.wellFormed
  · obtain ⟨e, hdeclares⟩ := hbelong.declared q hq
    exact hdeclares.scalar
  · obtain ⟨e, he, hbody⟩ := h.wellTyped q hq
    exact (hbody s hs).shaped (h.laidOut.shows hq (Tables.procedure?_eq_some.mp he))
  · obtain ⟨e, hlaysOut⟩ := h.laidOut.procedures q hq
    exact h.laidOut.frameBytes_le hlaysOut

/-- A program that is compiled with success makes sense, and its code is that of the closed form. -/
theorem compile_compilable {definitions : List Definition} {c : Compilation}
    (h : compile (Program.ofDefinitions definitions) .codegen = .ok c) :
    (Program.ofDefinitions definitions).Compilable ∧
      c.assembly = some ⟨(Program.ofDefinitions definitions).code,
        (Program.ofDefinitions definitions).need⟩ := by
  obtain ⟨hcode, hregisters, types, hready⟩ := compile_code h
  exact ⟨hready.compilable hregisters, hcode⟩

end

end TreeCompiler
