import TreeCompiler.Proofs.Emission.Symbols
import TreeCompiler.Proofs.Order.Shifted

/-!
# Calls in the code of a procedure

The frame of a procedure is laid out for the calls that are found in its body, and the code of the body
is emitted by a walk of its own.  `callSteps` reads off a piece of code what it does for the sake of
calls, and the two walks agree about it: the code of a body stores the arguments of every call at the
places of the callee's parameters and then makes the call, in the order of the body, and does nothing
else of the kind (`callSteps_codeOf`).  So the return address is saved if and only if there is a call,
and the arguments stay inside the area that the frame has for them (`compile_calls`).
-/

namespace TreeCompiler

/-- What a line of code does for the sake of calls. -/
inductive CallStep where
  /-- It stores a word at an offset from the stack pointer. -/
  | argument (offset : Int)
  /-- It calls a procedure. -/
  | call (callee : String)
  /-- It stores the return address. -/
  | save (base : Register) (offset : Int)
  /-- It loads the return address. -/
  | restore (base : Register) (offset : Int)
deriving DecidableEq

/-- What a line does for the sake of calls, if it does something. -/
def Instruction.callStep? : Instruction → Option CallStep
  | .store source base offset =>
    if source = .ra then some (.save base offset)
    else if base = .sp then some (.argument offset)
    else none
  | .load target base offset => if target = .ra then some (.restore base offset) else none
  | .call callee => some (.call callee)
  | _ => none

/-- What code does for the sake of calls, in order. -/
def callSteps (code : Code) : List CallStep := code.filterMap Instruction.callStep?

/-- The steps that pass so many arguments to a procedure. -/
def passingSteps (parameters : Nat) (callee : String) : List CallStep :=
  (wordsFrom 0 parameters).map CallStep.argument ++ [.call callee]

/-! ### The code of expressions -/

section
variable {code code' : Code} {n : Nat}

/-- The steps of one piece of code come before those of the next. -/
@[simp] lemma callSteps_append : callSteps (code ++ code') = callSteps code ++ callSteps code' :=
  List.filterMap_append

/-- A load into a register of the bank takes no step. -/
lemma callSteps_load (h : n < bankSize) {base : Register} {offset : Int} :
    callSteps [.load (bank n) base offset] = [] := by
  have hstep : (Instruction.load (bank n) base offset).callStep? = none := if_neg (bank_ne h).2.2.2
  rw [callSteps, List.filterMap_cons_none hstep, List.filterMap_nil]

/-- An operator takes no step. -/
lemma BinaryOp.callSteps_code (op : BinaryOp) (n l : Nat) : callSteps (op.code n l) = [] := by
  unfold BinaryOp.code
  split <;> rfl

variable (places : List (String × Place))

mutual

/-- The code of a variable takes no step, if the registers suffice. -/
lemma Variable.callSteps_code (v : Variable) (n l : Nat) (hfits : n + v.need ≤ bankSize) :
    callSteps (v.code places n l) = [] := by
  match v with
  | .named _ name =>
    rw [Variable.code]
    split
    · unfold Place.code
      split
      · exact callSteps_load hfits
      · rfl
    · rfl
  | .element _ array index =>
    rw [Variable.need] at hfits
    have harray := array.callSteps_code n l (by omega)
    have hindex := index.callSteps_code (n + 1) (l + array.labels) (by omega)
    rw [Variable.code, callSteps_append, callSteps_append, harray, hindex]
    split <;> rfl

/-- The code of an expression takes no step, if the registers suffice. -/
lemma Expr.callSteps_code (e : Expr) (n l : Nat) (hfits : n + e.need ≤ bankSize) :
    callSteps (e.code places n l) = [] := by
  match e with
  | .int _ _ => rfl
  | .bool _ _ => rfl
  | .read _ source =>
    have hneed := source.need_pos
    rw [Expr.need] at hfits
    rw [Expr.code, callSteps_append, source.callSteps_code n l hfits, callSteps_load (by omega)]
    rfl
  | .negate _ operand =>
    rw [Expr.code, callSteps_append, operand.callSteps_code n l hfits]
    rfl
  | .binary _ op left right =>
    rw [Expr.need] at hfits
    have hleft := left.callSteps_code n l (by omega)
    have hright := right.callSteps_code (n + 1) (l + left.labels) (by omega)
    rw [Expr.code, callSteps_append, callSteps_append, hleft, hright, op.callSteps_code]
    rfl

end

/-- The code of a condition takes no step, if the registers suffice. -/
lemma Expr.callSteps_conditionCode (test : Expr) (falseLabel : String) (l : Nat)
    (hfits : test.need ≤ bankSize) : callSteps (test.conditionCode places falseLabel l) = [] := by
  have hzeroTest (e : Expr) (he : e.need ≤ bankSize) :
      callSteps (e.code places 0 l ++ [.branch .eq (bank 0) .zero falseLabel]) = [] := by
    rw [callSteps_append, e.callSteps_code places 0 l (by omega)]
    rfl
  match test with
  | .int _ _ => rfl
  | .bool _ _ => rfl
  | .read _ _ => exact hzeroTest _ hfits
  | .negate _ _ => exact hzeroTest _ hfits
  | .binary mark op left right =>
    rw [Expr.conditionCode]
    by_cases hop : op.isComparison = true
    · rw [Expr.need] at hfits
      have hleft := left.callSteps_code places 0 l (by omega)
      have hright := right.callSteps_code places 1 (l + left.labels) (by omega)
      rw [if_pos hop, callSteps_append, callSteps_append, hleft, hright]
      rfl
    · rw [if_neg hop]
      exact hzeroTest _ hfits

/-- The code of an argument takes no step, if the registers suffice. -/
lemma Formal.callSteps_argumentCode (f : Formal) (argument : Expr) (l : Nat)
    (hfits : argument.need ≤ bankSize) : callSteps (f.argumentCode places argument l) = [] := by
  unfold argumentCode
  split
  · cases hv : argument.variable? with
    | none => rfl
    | some v =>
      obtain ⟨mark, rfl⟩ := Expr.variable?_eq_some.mp hv
      rw [Expr.need] at hfits
      exact v.callSteps_code places 0 l (by omega)
  · exact argument.callSteps_code places 0 l (by omega)

/-! ### The code of statements -/

/-- The code of arguments stores them at consecutive words. -/
lemma callSteps_argumentsCode {formals : List Formal} {arguments : List Expr}
    (h : List.Forall₂ (Formal.Accepts places) formals arguments) (offset : Int) (l : Nat)
    (hfits : argumentsNeed arguments ≤ bankSize) :
    callSteps (argumentsCode places formals arguments offset l) =
      (wordsFrom offset formals.length).map CallStep.argument := by
  induction h generalizing offset l with
  | nil => rfl
  | @cons f argument formals arguments _ _ ih =>
    have hneed : argumentsNeed (argument :: arguments) =
        max argument.need (argumentsNeed arguments) := rfl
    rw [hneed] at hfits
    have hstore : callSteps [.store (bank 0) .sp offset] = [.argument offset] := rfl
    rw [argumentsCode, List.append_cons, callSteps_append, callSteps_append,
      f.callSteps_argumentCode places argument l (by omega), hstore, ih _ _ (by omega)]
    rfl

variable {places} {signature : String → Option (List Formal)}

mutual

/-- The code of a statement makes the calls of the statement in order, and passes their arguments. -/
lemma Stmt.Shaped.callSteps_code {s : Stmt} (hs : s.Shaped places signature) (l : Nat)
    (hfits : s.need ≤ bankSize) : callSteps (s.code places signature l) =
      s.calls.flatMap fun c => passingSteps ((signature c.1).getD []).length c.1 := by
  match s, hs with
  | .empty _, .empty => rfl
  | .block _ body, .block hbody => exact callSteps_codeOf hbody l hfits
  | .assign _ target value, .assign _ _ =>
    rw [Stmt.need] at hfits
    have hstore : callSteps [.store (bank 1) (bank 0) 0] = [] := rfl
    rw [Stmt.code, callSteps_append, callSteps_append,
      target.callSteps_code places 0 l (by omega),
      value.callSteps_code places 1 _ (by omega), hstore]
    rfl
  | .ifThen _ test thenPart, .ifThen _ hthen =>
    rw [Stmt.need] at hfits
    rw [Stmt.code, callSteps_append, callSteps_append,
      test.callSteps_conditionCode places _ _ (by omega), hthen.callSteps_code _ (by omega)]
    exact List.append_nil _
  | .ifThenElse _ test thenPart elsePart, .ifThenElse _ hthen helse =>
    rw [Stmt.need] at hfits
    have htest := test.callSteps_conditionCode places (labelName l) (l + 2) (by omega)
    have hthenPart := hthen.callSteps_code (l + 2 + test.conditionLabels) (by omega)
    have helsePart :=
      helse.callSteps_code (l + 2 + test.conditionLabels + thenPart.labels) (by omega)
    have hjump : callSteps [.jump (labelName (l + 1)), .label (labelName l)] = [] := rfl
    have hend : callSteps [.label (labelName (l + 1))] = [] := rfl
    rw [Stmt.code, Stmt.calls, List.flatMap_append]
    simp only [callSteps_append, htest, hthenPart, helsePart, hjump, hend, List.nil_append,
      List.append_nil]
  | .loop _ test body, .loop _ hbody =>
    rw [Stmt.need] at hfits
    have htest := test.callSteps_conditionCode places (labelName (l + 1)) (l + 2) (by omega)
    have hbodyPart := hbody.callSteps_code (l + 2 + test.conditionLabels) (by omega)
    have hstart : callSteps [.label (labelName l)] = [] := rfl
    have hend : callSteps [.jump (labelName l), .label (labelName (l + 1))] = [] := rfl
    rw [Stmt.code, Stmt.calls, ← List.singleton_append]
    simp only [callSteps_append, htest, hbodyPart, hstart, hend, List.nil_append, List.append_nil]
  | .call _ callee arguments, @Stmt.Shaped.call _ _ _ _ _ formals hcallee harguments =>
    rw [Stmt.need] at hfits
    have hcall : callSteps [.call callee] = [.call callee] := rfl
    have hcalls : (Stmt.call ‹_› callee arguments).calls = [(callee, arguments)] := rfl
    rw [Stmt.code, hcallee, Option.getD_some, callSteps_append,
      callSteps_argumentsCode places harguments 0 l hfits, hcall, hcalls, List.flatMap_singleton,
      hcallee, Option.getD_some]
    rfl

/-- The code of a list of statements makes their calls in order, and passes their arguments. -/
lemma callSteps_codeOf {body : List Stmt} (hbody : ∀ s ∈ body, s.Shaped places signature) (l : Nat)
    (hfits : needOf body ≤ bankSize) : callSteps (codeOf places signature body l) =
      (callsOf body).flatMap fun c => passingSteps ((signature c.1).getD []).length c.1 := by
  match body with
  | [] => rfl
  | s :: rest =>
    obtain ⟨hs, hrest⟩ := List.forall_mem_cons.mp hbody
    rw [needOf] at hfits
    rw [codeOf, callsOf, callSteps_append, List.flatMap_append, hs.callSteps_code l (by omega),
      callSteps_codeOf hrest _ (by omega)]

end

end

/-! ### The code of procedures -/

/-- The steps by which the tables say that arguments are passed to a procedure: one for each of its
parameters, at the offset of the parameter, and then the call. -/
def Tables.passing? (t : Tables) (callee : String) : Option (List CallStep) := do
  let entry ← t.procedure? callee
  let offsets ← entry.parameters.mapM Slot.offset
  return offsets.map CallStep.argument ++ [.call callee]

/-- The code that enters a procedure saves the return address if it is told to. -/
lemma callSteps_enterCode (frame oldFramePointer oldReturnAddress : Int) (savesReturn : Bool) :
    callSteps (enterCode frame oldFramePointer oldReturnAddress savesReturn) =
      .argument oldFramePointer :: if savesReturn then [.save .fp oldReturnAddress] else [] := by
  cases savesReturn <;> rfl

/-- The code that leaves a procedure restores the return address if it is told to. -/
lemma callSteps_leaveCode (frame oldFramePointer oldReturnAddress : Int) (savesReturn : Bool) :
    callSteps (leaveCode frame oldFramePointer oldReturnAddress savesReturn) =
      if savesReturn then [.restore .fp oldReturnAddress] else [] := by
  cases savesReturn <;> rfl

/-- Words from the stack pointer upward are aligned, and they end where the last one does. -/
lemma wordsFrom_bounds {parameters : Nat} {offset : Int} (h : offset ∈ wordsFrom 0 parameters) :
    0 ≤ offset ∧ (Word.size : Int) ∣ offset ∧
      offset + Word.size ≤ (Word.size * parameters : Nat) := by
  obtain ⟨k, hk⟩ := List.mem_iff_getElem?.mp h
  have hlt : k < parameters := by
    obtain ⟨hlength, -⟩ := List.getElem?_eq_some_iff.mp hk
    rwa [length_wordsFrom] at hlength
  rw [getElem?_wordsFrom hlt, Option.some.injEq, Int.zero_add] at hk
  subst hk
  have hword : (Word.size : Int) = 4 := rfl
  rw [Nat.cast_mul, hword]
  exact ⟨by omega, dvd_mul_right _ _, by omega⟩

section
variable {p : Program} {t : Tables} {q : Procedure} {e : ProcedureEntry}

/-- The tables say that arguments are passed at consecutive words. -/
lemma Tables.LaidOut.passing?_eq (h : t.LaidOut p) {callee : String}
    (hcallee : (p.signature callee).isSome = true) :
    t.passing? callee = some (passingSteps ((p.signature callee).getD []).length callee) := by
  obtain ⟨formals, hformals⟩ := Option.isSome_iff_exists.mp hcallee
  obtain ⟨e, he⟩ := h.belongTo.exists_of_signature hformals
  obtain ⟨⟨hoffsets, -⟩, formals', hformals', hslots⟩ := h.signature_eq he
  rw [hformals] at hformals'
  cases hformals'
  have hplaced : List.Forall₂ (· = ·) (e.parameters.map Slot.offset)
      ((wordsFrom 0 formals.length).map some) := by
    rw [hoffsets, hslots.length_eq]
    exact List.forall₂_refl _
  rw [List.forall₂_map_left_iff, List.forall₂_map_right_iff] at hplaced
  unfold passing?
  rw [Tables.procedure?_eq_some.mpr he, hformals, Option.bind_eq_bind, Option.bind_some,
    mapM_eq_some hplaced]
  rfl

/-- The area for outgoing arguments of a procedure has the size that its calls need. -/
lemma Tables.LaidOut.exists_outgoing (h : t.LaidOut p) (hq : q ∈ p.procedures) :
    ∃ e area, t.procedure? q.name = some e ∧ e.layout.outgoing = some area ∧
      area.size = q.outgoingBytes p.signature := by
  obtain ⟨e, hlaysOut⟩ := h.procedures q hq
  obtain ⟨area, sizes, harea, -, hsizes, hsize⟩ := hlaysOut.outgoing
  refine ⟨e, area, Tables.procedure?_eq_some.mpr hlaysOut.bound, harea, ?_⟩
  rw [hsize, h.outgoing_eq hsizes]
  rfl

/-- The calls of a procedure are to procedures that have a signature. -/
lemma Program.Compilable.signature_calls (h : p.Compilable) (hq : q ∈ p.procedures) :
    ∀ c ∈ q.calls, (p.signature c.1).isSome = true := by
  have hbody : (Stmt.block default q.body).Shaped (q.places p.typeNames) p.signature :=
    .block (h.shaped q hq)
  exact hbody.signature_calls

/-- The body of a procedure does not take more registers than there are. -/
lemma Program.Compilable.need_le (h : p.Compilable) (hq : q ∈ p.procedures) :
    needOf q.body ≤ bankSize := by
  have hle := le_foldr_max (f := fun q => needOf q.body) hq
  exact hle.trans h.registers

end

/-- The code of a procedure agrees with the frames that are laid out about calls. -/
structure Procedure.CallsAgree (q : Procedure) (t : Tables) (code : Code) : Prop where
  /-- The code calls what the body calls, in order. -/
  callees : callees code = q.calls.map Prod.fst
  /-- The return address is saved when the procedure is entered, and restored from the same place when
  it is left, if and only if there is a call.  The steps in between are those by which the calls pass
  their arguments, and each argument has a word in the area for outgoing arguments. -/
  steps : ∃ (body : Code) (frame oldFramePointer oldReturnAddress : Int) (saves : Bool)
    (e : ProcedureEntry) (area : OutgoingArea),
    code = [.exports q.name, .label q.name] ++
      enterCode frame oldFramePointer oldReturnAddress saves ++ body ++
      leaveCode frame oldFramePointer oldReturnAddress saves ∧
    (saves = true ↔ TreeCompiler.callees code ≠ []) ∧
    callSteps code = .argument oldFramePointer ::
      (if saves then [.save .fp oldReturnAddress] else []) ++ callSteps body ++
      (if saves then [.restore .fp oldReturnAddress] else []) ∧
    (q.calls.mapM fun call => t.passing? call.1).map List.flatten = some (callSteps body) ∧
    t.procedure? q.name = some e ∧ e.layout.outgoing = some area ∧
    ∀ offset, .argument offset ∈ callSteps body →
      0 ≤ offset ∧ (Word.size : Int) ∣ offset ∧ offset + Word.size ≤ area.size

/-- The allocation of frames and the emission of code agree about calls.  The code of a procedure calls
what its body calls, in order.  Its return address is saved when it is entered, and restored from the
same place when it is left, if and only if there is a call.  Between one call and the next the code of
the body stores one word for each parameter of the callee, at the place that the parameter has, and all
of these places are words of the area that the procedure's frame has for outgoing arguments. -/
theorem compile_calls (definitions : List Definition) (c : Compilation)
    (h : compile (Program.ofDefinitions definitions) .codegen = .ok c) :
    ∃ assembly, c.assembly = some assembly ∧
      ∀ q ∈ (Program.ofDefinitions definitions).procedures,
        q.CallsAgree c.tables (segment q.name assembly.code) := by
  obtain ⟨hassembly, hregisters, types, hready⟩ := compile_code h
  have hcompilable := hready.compilable hregisters
  have hnodup := (List.nodup_append.mp hready.laidOut.belongTo.nodup).2.1
  refine ⟨_, hassembly, fun q hq => ?_⟩
  obtain ⟨before, after, hsplit⟩ := List.append_of_mem hq
  obtain ⟨e, area, he, harea, hsize⟩ := hready.laidOut.exists_outgoing hq
  have hsegment := Program.segment_code hnodup hsplit
  have hcallees := (q.links_code (hcompilable.shaped q hq)
    (before.map fun r => labelsOf r.body).sum).callees
  have hbody := callSteps_codeOf (hcompilable.shaped q hq)
    (before.map fun r => labelsOf r.body).sum (hcompilable.need_le hq)
  rw [← hsegment] at hcallees
  refine ⟨hcallees, _, _, _, _, _, e, area, hsegment, ?saves, ?steps, ?passing, he, harea, ?bounds⟩
  case saves =>
    rw [hcallees, ne_eq, List.map_eq_nil_iff, Bool.not_eq_true', List.isEmpty_eq_false_iff]
  case steps =>
    have hhead : callSteps [.exports q.name, .label q.name] = [] := rfl
    rw [hsegment]
    unfold Procedure.code
    simp only [callSteps_append, hhead, callSteps_enterCode, callSteps_leaveCode, List.nil_append]
  case passing =>
    have hpassing : List.Forall₂ (fun call steps => c.tables.passing? call.1 = some steps) q.calls
        (q.calls.map fun call => passingSteps
          (((Program.ofDefinitions definitions).signature call.1).getD []).length call.1) := by
      rw [List.forall₂_map_right_iff, List.forall₂_same]
      exact fun call hcall =>
        hready.laidOut.passing?_eq (hcompilable.signature_calls hq call hcall)
    rw [mapM_eq_some hpassing, hbody, Option.map_some, ← List.flatMap_def]
    rfl
  case bounds =>
    intro offset hoffset
    rw [hbody] at hoffset
    obtain ⟨call, hcall, hstep⟩ := List.mem_flatMap.mp hoffset
    obtain ⟨formals, hformals⟩ :=
      Option.isSome_iff_exists.mp (hcompilable.signature_calls hq call hcall)
    -- the only steps that store arguments of a call are those for its parameters
    have hword : offset ∈ wordsFrom 0 formals.length := by
      rw [hformals] at hstep
      simpa [passingSteps] using hstep
    have hfits := q.argumentBytes_le hcall hformals
    obtain ⟨hnonneg, hdvd, hend⟩ := wordsFrom_bounds hword
    refine ⟨hnonneg, hdvd, ?_⟩
    rw [hsize]
    omega

/-- The counting program is compiled, and its code agrees with its frames about calls. -/
theorem compile_calls_countdown : ∃ c assembly,
    compile (Program.ofDefinitions countdown) .codegen = .ok c ∧ c.assembly = some assembly ∧
      ∀ q ∈ (Program.ofDefinitions countdown).procedures,
        q.CallsAgree c.tables (segment q.name assembly.code) := by
  obtain ⟨c, hc⟩ := exists_countdown_compiled
  obtain ⟨assembly, hassembly, hagree⟩ := compile_calls countdown c hc
  exact ⟨c, assembly, hc, hassembly, hagree⟩

end TreeCompiler
