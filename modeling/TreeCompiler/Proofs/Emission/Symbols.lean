import TreeCompiler.Proofs.Emission.Shaped

/-!
# Symbols and their uses

The code of a program introduces symbols, by imports and by labels, and uses them as the targets of
jumps and calls.  `Links` says of a piece of code which symbols it introduces, which others its jumps
may go to, and which procedures it calls.  It is shown construct by construct, so that the labels of
a construct are exactly those that the construct takes, each of them once.

For a whole program the symbols are the runtime library, the label of the index error, the
procedures, and the labels that are made up.  All targets are among them, but they are different only
if no procedure is called like one of the labels (`compile_links`).
-/

namespace TreeCompiler

/-! ### Symbols and targets -/

/-- The symbol that a line introduces. -/
def Instruction.symbol? : Instruction → Option String
  | .imports name | .label name => some name
  | _ => none

/-- The symbol that an instruction may jump to. -/
def Instruction.jumpTarget? : Instruction → Option String
  | .branch _ _ _ target | .jump target => some target
  | _ => none

/-- The symbol that an instruction calls. -/
def Instruction.callee? : Instruction → Option String
  | .call target => some target
  | _ => none

/-- The symbols that code introduces, in order. -/
def symbols (code : Code) : List String := code.filterMap Instruction.symbol?

/-- The symbols that code may jump to, in order. -/
def jumpTargets (code : Code) : List String := code.filterMap Instruction.jumpTarget?

/-- The symbols that code calls, in order. -/
def callees (code : Code) : List String := code.filterMap Instruction.callee?

/-- Code introduces some symbols, jumps to these and to symbols from outside, and calls some others. -/
structure Links (code : Code) (introduced outside called : List String) : Prop where
  symbols : (symbols code).Perm introduced
  targets : jumpTargets code ⊆ introduced ++ outside
  callees : callees code = called

namespace Links

variable {code code' : Code} {introduced introduced' outside outside' called called' : List String}

/-- Code without symbols and targets. -/
lemma plain (hsymbols : TreeCompiler.symbols code = []) (htargets : jumpTargets code = [])
    (hcallees : TreeCompiler.callees code = []) : Links code [] outside [] := by
  refine ⟨?_, ?_, hcallees⟩
  · rw [hsymbols]
  · rw [htargets]
    exact List.nil_subset _

/-- A label introduces itself. -/
lemma label (name : String) : Links [.label name] [name] outside [] :=
  ⟨.refl _, List.nil_subset _, rfl⟩

/-- Code may jump to a symbol from outside. -/
lemma jump {i : Instruction} {name : String} (hsymbol : i.symbol? = none)
    (htarget : i.jumpTarget? = some name) (hcallee : i.callee? = none) (hname : name ∈ outside) :
    Links [i] [] outside [] := by
  refine ⟨?_, ?_, ?_⟩
  · simp [TreeCompiler.symbols, hsymbol]
  · simpa [jumpTargets, htarget] using hname
  · simp [TreeCompiler.callees, hcallee]

/-- What two pieces of code link is what they link one after the other. -/
lemma append (h : Links code introduced outside called)
    (h' : Links code' introduced' outside called') :
    Links (code ++ code') (introduced ++ introduced') outside (called ++ called') := by
  refine ⟨?_, ?_, ?_⟩
  · unfold TreeCompiler.symbols
    rw [List.filterMap_append]
    exact h.symbols.append h'.symbols
  · unfold jumpTargets
    rw [List.filterMap_append, List.append_subset]
    constructor
    · intro x hx
      have hmem := h.targets hx
      simp only [List.mem_append] at hmem ⊢
      tauto
    · intro x hx
      have hmem := h'.targets hx
      simp only [List.mem_append] at hmem ⊢
      tauto
  · unfold TreeCompiler.callees
    rw [List.filterMap_append]
    exact congrArg₂ (· ++ ·) h.callees h'.callees

/-- More symbols may come from outside. -/
lemma widen (h : Links code introduced outside called) (houtside : outside ⊆ outside') :
    Links code introduced outside' called := by
  refine ⟨h.symbols, fun x hx => ?_, h.callees⟩
  rcases List.mem_append.mp (h.targets hx) with hmem | hmem
  · exact List.mem_append_left _ hmem
  · exact List.mem_append_right _ (houtside hmem)

/-- The symbols can be listed in another order, and they need not come from outside. -/
lemma mono (h : Links code introduced outside called) (hperm : introduced.Perm introduced')
    (houtside : outside ⊆ introduced' ++ outside') : Links code introduced' outside' called := by
  refine ⟨h.symbols.trans hperm, fun x hx => ?_, h.callees⟩
  rcases List.mem_append.mp (h.targets hx) with hmem | hmem
  · exact List.mem_append_left _ (hperm.subset hmem)
  · exact houtside hmem

end Links

/-! ### Labels that are made up -/

/-- So many labels from one on. -/
def labelsFrom (l n : Nat) : List String := (List.range' l n).map labelName

/-- Labels are taken one after the other. -/
lemma labelsFrom_add {l m n : Nat} :
    labelsFrom l (m + n) = labelsFrom l m ++ labelsFrom (l + m) n := by
  unfold labelsFrom
  rw [← List.range'_append_1, List.map_append]

/-- A single label. -/
lemma labelsFrom_one {l : Nat} : labelsFrom l 1 = [labelName l] := rfl

/-- Two labels. -/
lemma labelsFrom_two {l : Nat} : labelsFrom l 2 = [labelName l, labelName (l + 1)] := rfl

/-- Two elements that follow lists can be put in front. -/
private lemma perm_between {α : Type} {a b : α} {l l' : List α} :
    (l ++ [a] ++ l' ++ [b]).Perm (a :: b :: (l ++ l')) := by
  calc (l ++ [a] ++ l' ++ [b]).Perm (b :: (l ++ [a] ++ l')) := List.perm_append_singleton _ _
    _ = b :: (l ++ a :: l') := by rw [List.append_cons l a l']
    _ |>.Perm (b :: a :: (l ++ l')) := List.Perm.cons _ List.perm_middle
    _ |>.Perm (a :: b :: (l ++ l')) := List.Perm.swap _ _ _

/-- Different numbers give different labels. -/
lemma labelName_injective : Function.Injective labelName := by
  intro k l h
  have hdigits : toString k = toString l := (String.append_right_inj "L").mp h
  have hlist : Nat.toDigits 10 k = Nat.toDigits 10 l := by
    rw [← Nat.toList_repr, ← Nat.toList_repr]
    exact congrArg String.toList hdigits
  rw [← Nat.ofDigitChars_ten_toDigits (n := k), hlist, Nat.ofDigitChars_ten_toDigits]

/-- A label starts with a capital L. -/
lemma toList_labelName {l : Nat} : (labelName l).toList = 'L' :: (toString l).toList := by
  unfold labelName
  rw [String.toList_append]
  rfl

/-- The labels that are made up are different. -/
lemma nodup_labelsFrom {l n : Nat} : (labelsFrom l n).Nodup :=
  List.Nodup.map labelName_injective List.nodup_range'

/-! ### What constructs link -/

/-- The code of an operator introduces its labels. -/
lemma BinaryOp.links_code (op : BinaryOp) (n l : Nat) :
    Links (op.code n l) (labelsFrom l (if op.isComparison then 2 else 0)) [indexErrorLabel] [] := by
  unfold BinaryOp.code
  split
  · rename_i arith harith
    rw [BinaryOp.arith?_eq_some harith]
    exact .plain rfl rfl rfl
  · rename_i harith
    rw [BinaryOp.arith?_eq_none harith]
    have htargets : jumpTargets (compareCode op n l) = [labelName l, labelName (l + 1)] := rfl
    refine ⟨.refl _, ?_, rfl⟩
    rw [htargets]
    exact List.subset_append_left _ _

section
variable (places : List (String × Place))

mutual

/-- The code of a variable introduces its labels. -/
lemma Variable.links_code (v : Variable) (n l : Nat) :
    Links (v.code places n l) (labelsFrom l v.labels) [indexErrorLabel] [] := by
  match v with
  | .named _ name =>
    rw [Variable.code]
    split
    · unfold Place.code
      split <;> exact .plain rfl rfl rfl
    · exact .plain rfl rfl rfl
  | .element _ array index =>
    rw [Variable.code, Variable.labels, labelsFrom_add]
    have hparts := (array.links_code n l).append (index.links_code (n + 1) (l + array.labels))
    split
    · rename_i length s _
      have hcheck : Links (indexCode n length (Word.size * s.cells)) [] [indexErrorLabel] [] :=
        ⟨.refl _, List.Subset.refl _, rfl⟩
      have happend := hparts.append hcheck
      rwa [List.append_nil] at happend
    · rwa [List.append_nil]

/-- The code of an expression introduces its labels. -/
lemma Expr.links_code (e : Expr) (n l : Nat) :
    Links (e.code places n l) (labelsFrom l e.labels) [indexErrorLabel] [] := by
  match e with
  | .int _ value => exact .plain rfl rfl rfl
  | .bool _ value => exact .plain rfl rfl rfl
  | .read _ source =>
    have hload : Links [.load (bank n) (bank n) 0] [] [indexErrorLabel] [] := .plain rfl rfl rfl
    have happend := (source.links_code n l).append hload
    rwa [List.append_nil] at happend
  | .negate _ operand =>
    have hsubtract : Links [.arith .sub (bank n) .zero (.register (bank n))] [] [indexErrorLabel]
        [] := .plain rfl rfl rfl
    have happend := (operand.links_code n l).append hsubtract
    rwa [List.append_nil] at happend
  | .binary _ op left right =>
    rw [Expr.code, Expr.labels, labelsFrom_add, labelsFrom_add, ← Nat.add_assoc]
    exact ((left.links_code n l).append (right.links_code (n + 1) (l + left.labels))).append
      (op.links_code n (l + left.labels + right.labels))

end

/-- Comparing the value of an expression with zero may go to the label that is given. -/
private lemma Expr.links_zeroTest (e : Expr) (falseLabel : String) (n l : Nat) :
    Links (e.code places n l ++ [.branch .eq (bank n) .zero falseLabel]) (labelsFrom l e.labels)
      [indexErrorLabel, falseLabel] [] := by
  have hbranch : Links [.branch .eq (bank n) .zero falseLabel] [] [indexErrorLabel, falseLabel] [] :=
    .jump rfl rfl rfl (by simp)
  have happend := ((e.links_code places n l).widen (by simp)).append hbranch
  rwa [List.append_nil] at happend

/-- The code of a condition introduces its labels, and may go to the label that is given. -/
lemma Expr.links_testCode (test : Expr) (falseLabel : String) (n l : Nat) :
    Links (test.testCode places n l ++ [test.testBranch falseLabel n])
      (labelsFrom l test.conditionLabels) [indexErrorLabel, falseLabel] [] := by
  match test with
  | .int _ _ => exact Expr.links_zeroTest places _ _ _ _
  | .bool _ _ => exact Expr.links_zeroTest places _ _ _ _
  | .read _ _ => exact Expr.links_zeroTest places _ _ _ _
  | .negate _ _ => exact Expr.links_zeroTest places _ _ _ _
  | .binary mark op left right =>
    rw [Expr.testCode, Expr.testBranch, Expr.conditionLabels]
    by_cases hop : op.isComparison = true
    · rw [if_pos hop, if_pos hop, if_pos hop, labelsFrom_add]
      have hoperands := (left.links_code places n l).append
        (right.links_code places (n + 1) (l + left.labels))
      have hbranch : Links [.branch op.inverseBranch (bank n) (bank (n + 1)) falseLabel] []
          [indexErrorLabel, falseLabel] [] := .jump rfl rfl rfl (by simp)
      have happend := (hoperands.widen (by simp)).append hbranch
      rwa [List.append_nil] at happend
    · rw [if_neg hop, if_neg hop, if_neg hop]
      exact Expr.links_zeroTest places _ _ _ _

/-- The code of a condition with no registers in use introduces its labels. -/
lemma Expr.links_conditionCode (test : Expr) (falseLabel : String) (l : Nat) :
    Links (test.conditionCode places falseLabel l) (labelsFrom l test.conditionLabels)
      [indexErrorLabel, falseLabel] [] := by
  rw [Expr.conditionCode_eq]
  exact test.links_testCode places falseLabel 0 l

variable {places}

/-- The code of an argument introduces the argument's labels. -/
lemma Formal.Accepts.links_argumentCode {f : Formal} {argument : Expr}
    (h : f.Accepts places argument) (l : Nat) :
    Links (f.argumentCode places argument l) (labelsFrom l argument.labels) [indexErrorLabel] [] := by
  unfold Formal.argumentCode
  split
  · rename_i href
    obtain ⟨v, hv⟩ := Option.isSome_iff_exists.mp (h.2 href)
    rw [hv]
    obtain ⟨mark, rfl⟩ := Expr.variable?_eq_some.mp hv
    exact v.links_code places 0 l
  · exact argument.links_code places 0 l

/-- The code of arguments introduces the labels of all of them. -/
lemma links_argumentsCode {formals : List Formal} {arguments : List Expr}
    (h : List.Forall₂ (Formal.Accepts places) formals arguments) (offset : Int) (l : Nat) :
    Links (argumentsCode places formals arguments offset l)
      (labelsFrom l (argumentsLabels arguments)) [indexErrorLabel] [] := by
  induction h generalizing offset l with
  | nil => exact .plain rfl rfl rfl
  | @cons f argument formals arguments hf _ ih =>
    have hlabels : argumentsLabels (argument :: arguments) =
        argument.labels + argumentsLabels arguments := rfl
    have hstore : Links [.store (bank 0) .sp offset] [] [indexErrorLabel] [] := .plain rfl rfl rfl
    rw [argumentsCode, hlabels, labelsFrom_add, List.append_cons]
    have hfirst := (hf.links_argumentCode l).append hstore
    rw [List.append_nil] at hfirst
    exact hfirst.append (ih _ _)

variable {signature : String → Option (List Formal)}

mutual

/-- The code of a statement introduces its labels and makes its calls. -/
lemma Stmt.Shaped.links_code {s : Stmt} (hs : s.Shaped places signature) (l : Nat) :
    Links (s.code places signature l) (labelsFrom l s.labels) [indexErrorLabel]
      (s.calls.map Prod.fst) := by
  match s, hs with
  | .empty _, .empty => exact .plain rfl rfl rfl
  | .block _ body, .block hbody => exact links_codeOf hbody l
  | .assign _ target value, .assign _ _ =>
    have hstore : Links [.store (bank 1) (bank 0) 0] [] [indexErrorLabel] [] := .plain rfl rfl rfl
    have happend := ((target.links_code places 0 l).append
      (value.links_code places 1 (l + target.labels))).append hstore
    rw [List.append_nil] at happend
    rw [Stmt.code, Stmt.labels, labelsFrom_add]
    exact happend
  | .ifThen _ test thenPart, .ifThen _ hthen =>
    have htest := test.links_conditionCode places (labelName l) (l + 1)
    have hbody : Links _ _ [indexErrorLabel, labelName l] _ :=
      (hthen.links_code (l + 1 + test.conditionLabels)).widen (by simp)
    have happend := (htest.append hbody).append (.label (labelName l))
    rw [List.nil_append, List.append_nil] at happend
    rw [Stmt.labels, labelsFrom_add, labelsFrom_add, labelsFrom_one, ← Nat.add_assoc]
    refine happend.mono ?_ ?_
    · exact List.perm_append_singleton _ _
    · simp
  | .ifThenElse _ test thenPart elsePart, .ifThenElse _ hthen helse =>
    have htest : Links _ _ [indexErrorLabel, labelName l, labelName (l + 1)] _ :=
      (test.links_conditionCode places (labelName l) (l + 2)).widen (by simp)
    have hthenPart : Links _ _ [indexErrorLabel, labelName l, labelName (l + 1)] _ :=
      (hthen.links_code (l + 2 + test.conditionLabels)).widen (by simp)
    have hjump : Links [.jump (labelName (l + 1))] []
        [indexErrorLabel, labelName l, labelName (l + 1)] [] := .jump rfl rfl rfl (by simp)
    have helsePart : Links _ _ [indexErrorLabel, labelName l, labelName (l + 1)] _ :=
      (helse.links_code (l + 2 + test.conditionLabels + thenPart.labels)).widen (by simp)
    have happend := (((htest.append hthenPart).append (hjump.append (.label (labelName l)))).append
      helsePart).append (.label (labelName (l + 1)))
    simp only [List.nil_append, List.append_nil] at happend
    rw [← List.map_append] at happend
    rw [Stmt.labels, labelsFrom_add, labelsFrom_add, labelsFrom_add, labelsFrom_two]
    simp only [← Nat.add_assoc]
    refine happend.mono ?_ ?_
    · exact perm_between
    · simp
  | .loop _ test body, .loop _ hbody =>
    have htest : Links _ _ [indexErrorLabel, labelName l, labelName (l + 1)] _ :=
      (test.links_conditionCode places (labelName (l + 1)) (l + 2)).widen (by simp)
    have hbodyPart : Links _ _ [indexErrorLabel, labelName l, labelName (l + 1)] _ :=
      (hbody.links_code (l + 2 + test.conditionLabels)).widen (by simp)
    have hjump : Links [.jump (labelName l)] []
        [indexErrorLabel, labelName l, labelName (l + 1)] [] := .jump rfl rfl rfl (by simp)
    have happend := (((Links.label (labelName l)).append htest).append hbodyPart).append
      (hjump.append (.label (labelName (l + 1))))
    rw [List.nil_append, List.nil_append, List.append_nil] at happend
    rw [Stmt.labels, labelsFrom_add, labelsFrom_add, labelsFrom_two, ← Nat.add_assoc]
    refine happend.mono ?_ ?_
    · exact List.Perm.cons _ (List.perm_append_singleton _ _)
    · simp
  | .call _ callee arguments, @Stmt.Shaped.call _ _ _ _ _ formals hcallee harguments =>
    have hcall : Links [.call callee] [] [indexErrorLabel] [callee] :=
      ⟨.refl _, List.nil_subset _, rfl⟩
    have happend := (links_argumentsCode harguments 0 l).append hcall
    rw [List.append_nil] at happend
    rw [Stmt.code, hcallee]
    exact happend

/-- The code of a list of statements introduces their labels and makes their calls. -/
lemma links_codeOf {body : List Stmt} (hbody : ∀ s ∈ body, s.Shaped places signature) (l : Nat) :
    Links (codeOf places signature body l) (labelsFrom l (labelsOf body)) [indexErrorLabel]
      ((callsOf body).map Prod.fst) := by
  match body with
  | [] => exact .plain rfl rfl rfl
  | s :: rest =>
    obtain ⟨hs, hrest⟩ := List.forall_mem_cons.mp hbody
    rw [codeOf, labelsOf, labelsFrom_add, callsOf, List.map_append]
    exact (hs.links_code l).append (links_codeOf hrest _)

end

end

/-! ### What programs link -/

section
variable {names : List (String × ValueShape)} {signature : String → Option (List Formal)}

/-- The code that enters a procedure has no symbols. -/
lemma links_enterCode (frame oldFramePointer oldReturnAddress : Int) (savesReturn : Bool) :
    Links (enterCode frame oldFramePointer oldReturnAddress savesReturn) [] [indexErrorLabel] [] := by
  cases savesReturn <;> exact .plain rfl rfl rfl

/-- The code that leaves a procedure has no symbols. -/
lemma links_leaveCode (frame oldFramePointer oldReturnAddress : Int) (savesReturn : Bool) :
    Links (leaveCode frame oldFramePointer oldReturnAddress savesReturn) [] [indexErrorLabel] [] := by
  cases savesReturn <;> exact .plain rfl rfl rfl

/-- The code of a procedure introduces its name and the labels of its body. -/
lemma Procedure.links_code {q : Procedure}
    (hbody : ∀ s ∈ q.body, s.Shaped (q.places names) signature) (l : Nat) :
    Links (q.code names signature l) (q.name :: labelsFrom l (labelsOf q.body)) [indexErrorLabel]
      (q.calls.map Prod.fst) := by
  have hhead : Links [.exports q.name, .label q.name] [q.name] [indexErrorLabel] [] :=
    ⟨.refl _, List.nil_subset _, rfl⟩
  have happend : ∀ frame oldFramePointer oldReturnAddress savesReturn,
      Links ([.exports q.name, .label q.name] ++
        enterCode frame oldFramePointer oldReturnAddress savesReturn ++
        codeOf (q.places names) signature q.body l ++
        leaveCode frame oldFramePointer oldReturnAddress savesReturn)
        ([q.name] ++ [] ++ labelsFrom l (labelsOf q.body) ++ []) [indexErrorLabel]
        ([] ++ [] ++ q.calls.map Prod.fst ++ []) := fun _ _ _ _ =>
    ((hhead.append (links_enterCode _ _ _ _)).append (links_codeOf hbody l)).append
      (links_leaveCode _ _ _ _)
  simp only [List.append_nil, List.nil_append] at happend
  exact happend _ _ _ _

/-- The code of procedures introduces their names and the labels of their bodies. -/
lemma links_proceduresCode {qs : List Procedure}
    (hqs : ∀ q ∈ qs, ∀ s ∈ q.body, s.Shaped (q.places names) signature) (l : Nat) :
    Links (proceduresCode names signature qs l)
      (qs.map Procedure.name ++ labelsFrom l (qs.map fun q => labelsOf q.body).sum)
      [indexErrorLabel] (qs.flatMap fun q => q.calls.map Prod.fst) := by
  induction qs generalizing l with
  | nil => exact .plain rfl rfl rfl
  | cons q rest ih =>
    obtain ⟨hq, hrest⟩ := List.forall_mem_cons.mp hqs
    have happend := (Procedure.links_code hq l).append (ih hrest (l + labelsOf q.body))
    refine happend.mono ?_ (List.subset_append_right _ _)
    rw [List.map_cons, List.map_cons, List.sum_cons, labelsFrom_add, List.cons_append,
      List.cons_append, ← List.append_assoc, ← List.append_assoc]
    exact .cons _ (List.perm_append_comm.append_right _)

end

/-- The symbols of a program: the runtime library, the index error, its procedures, and the labels
that are made up. -/
def Program.symbols (p : Program) : List String :=
  runtimeProcedures.map RuntimeProcedure.name ++ [indexErrorLabel] ++
    (p.procedures.map Procedure.name ++ labelsFrom 0 p.labels)

/-- The code of a program introduces its symbols, and jumps and calls go to these. -/
lemma Program.Compilable.links_code {p : Program} (h : p.Compilable) :
    Links p.code p.symbols [] (p.procedures.flatMap fun q => q.calls.map Prod.fst) := by
  have hhead : Links headCode (runtimeProcedures.map RuntimeProcedure.name ++ [indexErrorLabel])
      [indexErrorLabel] [] := ⟨.refl _, List.nil_subset _, rfl⟩
  refine (hhead.append (links_proceduresCode h.shaped 0)).mono (.refl _) ?_
  simp [symbols]

/-- The calls of a statement that makes sense are to procedures with a signature. -/
lemma Stmt.Shaped.signature_calls {places : List (String × Place)}
    {signature : String → Option (List Formal)} {s : Stmt} (hs : s.Shaped places signature) :
    ∀ c ∈ s.calls, (signature c.1).isSome = true := by
  induction hs with
  | empty => simp [Stmt.calls]
  | @block _ body _ ih =>
    rw [Stmt.calls]
    clear * - ih
    induction body with
    | nil => simp [callsOf]
    | cons s rest ihRest =>
      obtain ⟨hs, hrest⟩ := List.forall_mem_cons.mp ih
      rw [callsOf, List.forall_mem_append]
      exact ⟨hs, ihRest hrest⟩
  | assign _ _ => simp [Stmt.calls]
  | ifThen _ _ ih => exact ih
  | ifThenElse _ _ _ ihThen ihElse =>
    rw [Stmt.calls, List.forall_mem_append]
    exact ⟨ihThen, ihElse⟩
  | loop _ _ ih => exact ih
  | call hcallee _ => simp [Stmt.calls, hcallee]

namespace Program

variable {p : Program}

/-- A procedure with a signature is one of the runtime library or of the program. -/
lemma name_mem_of_signature {name : String} (h : (p.signature name).isSome = true) :
    name ∈ runtimeProcedures.map RuntimeProcedure.name ++ p.procedures.map Procedure.name := by
  unfold signature at h
  rw [List.mem_append]
  split at h
  · rename_i q hq
    have hname : q.name = name := by simpa using List.find?_some hq
    exact .inr (hname ▸ List.mem_map_of_mem (List.mem_of_find?_eq_some hq))
  · rw [Option.isSome_map, Option.isSome_iff_exists] at h
    obtain ⟨r, hr⟩ := h
    have hname : r.name = name := by simpa using List.find?_some hr
    exact .inl (hname ▸ List.mem_map_of_mem (List.mem_of_find?_eq_some hr))

/-- What the code of a program calls is among the program's symbols. -/
lemma Compilable.callees_subset (h : p.Compilable) : callees p.code ⊆ p.symbols := by
  rw [h.links_code.callees]
  intro name hname
  obtain ⟨q, hq, hcall⟩ := List.mem_flatMap.mp hname
  obtain ⟨c, hc, rfl⟩ := List.mem_map.mp hcall
  have hbody : (Stmt.block default q.body).Shaped (q.places p.typeNames) p.signature :=
    .block (h.shaped q hq)
  have hmem := name_mem_of_signature (hbody.signature_calls c hc)
  unfold symbols
  simp only [List.mem_append] at hmem ⊢
  tauto

/-- A name that does not start with a capital L is not a label that is made up. -/
lemma ne_labelName {name : String} (h : name.toList.head? ≠ some 'L') (l : Nat) :
    name ≠ labelName l := by
  rintro rfl
  rw [toList_labelName] at h
  exact h rfl

/-- The names that the assembly file imports are not labels that are made up. -/
lemma ne_labelName_of_mem_imports {name : String}
    (h : name ∈ runtimeProcedures.map RuntimeProcedure.name ++ [indexErrorLabel]) (l : Nat) :
    name ≠ labelName l := by
  have hforeign : ∀ name ∈ runtimeProcedures.map RuntimeProcedure.name ++ [indexErrorLabel],
      name.toList.head? ≠ some 'L' := by
    decide
  exact ne_labelName (hforeign name h) l

/-- The symbols of a program are different if no procedure is called like a label. -/
lemma Compilable.nodup_symbols (h : p.Compilable) : p.symbols.Nodup ↔
    ∀ q ∈ p.procedures, q.name ≠ indexErrorLabel ∧ ∀ l < p.labels, q.name ≠ labelName l := by
  obtain ⟨-, hprocedures, hruntime⟩ := List.nodup_append.mp h.names
  have himports : (runtimeProcedures.map RuntimeProcedure.name ++ [indexErrorLabel]).Nodup := by
    decide
  have hlabel : ∀ {name}, name ∈ labelsFrom 0 p.labels ↔ ∃ l < p.labels, labelName l = name := by
    simp [labelsFrom]
  unfold symbols
  rw [List.nodup_append]
  constructor
  · rintro ⟨-, hnodup, hdisjoint⟩ q hq
    have hname : q.name ∈ p.procedures.map Procedure.name := List.mem_map_of_mem hq
    refine ⟨fun heq => ?_, fun l hl heq => ?_⟩
    · exact hdisjoint indexErrorLabel (by simp) q.name (List.mem_append_left _ hname) heq.symm
    · exact (List.nodup_append.mp hnodup).2.2 q.name hname _ (hlabel.mpr ⟨l, hl, rfl⟩) heq
  · intro hnames
    refine ⟨himports, List.nodup_append.mpr ⟨hprocedures, nodup_labelsFrom, ?_⟩, ?_⟩
    · intro name hname other hother heq
      obtain ⟨q, hq, rfl⟩ := List.mem_map.mp hname
      obtain ⟨l, hl, rfl⟩ := hlabel.mp hother
      exact (hnames q hq).2 l hl heq
    · intro name hname other hother heq
      rcases List.mem_append.mp hother with hother | hother
      · obtain ⟨q, hq, rfl⟩ := List.mem_map.mp hother
        rcases List.mem_append.mp hname with hname | hname
        · exact hruntime _ hname _ (List.mem_map_of_mem hq) heq
        · exact (hnames q hq).1 (heq ▸ List.mem_singleton.mp hname)
      · obtain ⟨l, -, rfl⟩ := hlabel.mp hother
        exact ne_labelName_of_mem_imports hname l heq

end Program

/-- Every target of a jump or a call in the code of a compiled program is a symbol that the code
introduces.  The symbols are all different exactly if no procedure of the program is called like the
label of the index error or like one of the labels that are made up. -/
theorem compile_links (definitions : List Definition) (c : Compilation) (a : Assembly)
    (h : compile (Program.ofDefinitions definitions) .codegen = .ok c)
    (ha : c.assembly = some a) :
    ((symbols a.code).Nodup ↔ ∀ q ∈ (Program.ofDefinitions definitions).procedures,
      q.name ≠ indexErrorLabel ∧
        ∀ l < (Program.ofDefinitions definitions).labels, q.name ≠ labelName l) ∧
    ∀ i ∈ a.code, ∀ target, i.jumpTarget? = some target ∨ i.callee? = some target →
      target ∈ symbols a.code := by
  obtain ⟨hcompilable, hcode⟩ := compile_compilable h
  rw [ha] at hcode
  cases hcode
  have hlinks := hcompilable.links_code
  refine ⟨?_, fun i hi target htarget => ?_⟩
  · rw [hlinks.symbols.nodup_iff, hcompilable.nodup_symbols]
  · rw [hlinks.symbols.mem_iff]
    rcases htarget with hjump | hcall
    · have hmem := hlinks.targets (List.mem_filterMap.mpr ⟨i, hi, hjump⟩)
      rwa [List.append_nil] at hmem
    · exact hcompilable.callees_subset (List.mem_filterMap.mpr ⟨i, hi, hcall⟩)

/-- The symbols of the counting program are all different. -/
theorem compile_links_countdown : ∃ c a,
    compile (Program.ofDefinitions countdown) .codegen = .ok c ∧ c.assembly = some a ∧
      (symbols a.code).Nodup := by
  obtain ⟨c, hc⟩ := exists_countdown_compiled
  obtain ⟨-, hcode⟩ := compile_compilable hc
  exact ⟨c, _, hc, hcode, (compile_links countdown c _ hc hcode).1.mpr (by decide +kernel)⟩

/-- A program with a procedure that is called like the label of an `if` in the main procedure. -/
def labelClash : List Definition :=
  [.procedure { mark := .atLine 1, name := "L0", parameters := [], locals := [], body := [] },
   .procedure
    { mark := .atLine 3
      name := "main"
      parameters := []
      locals := []
      body := [.ifThen (.atLine 4) (.bool (.atLine 4) true) (.empty (.atLine 4))] }]

/-- A label that is made up is introduced twice if a procedure is called like it. -/
theorem compile_symbols_not_nodup : ∃ c a,
    compile (Program.ofDefinitions labelClash) .codegen = .ok c ∧ c.assembly = some a ∧
      ¬(symbols a.code).Nodup := by
  have hok : (compile (Program.ofDefinitions labelClash) .codegen).isOk = true := by
    decide +kernel
  obtain ⟨c, hc⟩ := exists_ok_of_isOk hok
  exact ⟨c, _, hc, (compile_compilable hc).2, by decide +kernel⟩

end TreeCompiler
