import TreeCompiler.Proofs.Order.Numbered

/-!
# Code with other labels

The numbers of the labels that are made up for a piece of code start where those of the code before it
end.  If the code before it is different, all of these numbers are larger or smaller by the same
amount, and nothing else changes (`codeOf_shifted`).
-/

namespace TreeCompiler

/-! ### Lines and labels -/

/-- Whether a line exports a name. -/
def Instruction.isExport : Instruction → Bool
  | .exports _ => true
  | _ => false

/-- Whether a line has no part in the labels that are made up: it exports nothing, and if it has a
label, that is the one of the index error. -/
def Instruction.isPlain : Instruction → Bool
  | .exports _ => false
  | .label name | .branch _ _ _ name | .jump name => name == indexErrorLabel
  | _ => true

/-- Two lines are the same, or their labels are made up and have numbers that are `shift` apart. -/
inductive Instruction.Shifted (shift : Int) : Instruction → Instruction → Prop
  | same {i : Instruction} : i.isPlain = true → Instruction.Shifted shift i i
  | label {n n' : Nat} : (n' : Int) = n + shift →
      Instruction.Shifted shift (.label (labelName n)) (.label (labelName n'))
  | branch {op : BranchOp} {left right : Register} {n n' : Nat} : (n' : Int) = n + shift →
      Instruction.Shifted shift (.branch op left right (labelName n))
        (.branch op left right (labelName n'))
  | jump {n n' : Nat} : (n' : Int) = n + shift →
      Instruction.Shifted shift (.jump (labelName n)) (.jump (labelName n'))

/-- Two pieces of code are the same up to the numbers of the labels that are made up, which are `shift`
apart. -/
def Shifted (shift : Int) (code code' : Code) : Prop :=
  List.Forall₂ (Instruction.Shifted shift) code code'

namespace Shifted

variable {shift : Int} {code code' code₁ code₁' code₂ code₂' : Code}

/-- Code without labels that are made up stays the same. -/
lemma same (h : code.all Instruction.isPlain = true) : Shifted shift code code :=
  List.forall₂_same.mpr fun i hi => .same (List.all_eq_true.mp h i hi)

/-- Code that is shifted exports nothing. -/
lemma isExport_eq_false (h : Shifted shift code code') : ∀ i ∈ code, i.isExport = false := by
  intro i hi
  obtain ⟨i', -, hshifted⟩ := exists_of_forall₂ h hi
  cases hshifted with
  | same hplain => cases i <;> first | rfl | cases hplain
  | label => rfl
  | branch => rfl
  | jump => rfl

/-- Pieces of code are shifted one after the other. -/
lemma append (h₁ : Shifted shift code₁ code₁') (h₂ : Shifted shift code₂ code₂') :
    Shifted shift (code₁ ++ code₂) (code₁' ++ code₂') :=
  List.rel_append h₁ h₂

/-- A line in front of code. -/
lemma cons {i i' : Instruction} (hi : i.Shifted shift i') (h : Shifted shift code₁ code₁') :
    Shifted shift (i :: code₁) (i' :: code₁') :=
  List.Forall₂.cons hi h

/-- A single line. -/
lemma single {i i' : Instruction} (hi : i.Shifted shift i') : Shifted shift [i] [i'] :=
  List.Forall₂.cons hi .nil

end Shifted

section
variable {shift : Int} {places : List (String × Place)} {signature : String → Option (List Formal)}

/-- The code of an operator is shifted with its labels. -/
lemma BinaryOp.code_shifted (op : BinaryOp) (n : Nat) {l l' : Nat} (h : (l' : Int) = l + shift) :
    Shifted shift (op.code n l) (op.code n l') := by
  unfold BinaryOp.code
  split
  · exact .same rfl
  · have hnext : ((l' + 1 : Nat) : Int) = (l + 1 : Nat) + shift := by omega
    exact .cons (.branch h) <| .cons (.same rfl) <| .cons (.jump hnext) <| .cons (.label h) <|
      .cons (.same rfl) <| .single (.label hnext)

mutual

/-- The code of a variable is shifted with its labels. -/
lemma Variable.code_shifted (v : Variable) (n : Nat) {l l' : Nat} (h : (l' : Int) = l + shift) :
    Shifted shift (v.code places n l) (v.code places n l') := by
  match v with
  | .named _ name =>
    rw [Variable.code, Variable.code]
    split
    · refine .same ?_
      unfold Place.code
      split <;> rfl
    · exact .nil
  | .element _ array index =>
    rw [Variable.code, Variable.code]
    refine ((array.code_shifted n h).append (index.code_shifted (n + 1) (by omega))).append ?_
    split
    · exact .same (by simp [indexCode, loadInteger, Instruction.isPlain])
    · exact .nil

/-- The code of an expression is shifted with its labels. -/
lemma Expr.code_shifted (e : Expr) (n : Nat) {l l' : Nat} (h : (l' : Int) = l + shift) :
    Shifted shift (e.code places n l) (e.code places n l') := by
  match e with
  | .int _ _ => exact .single (.same rfl)
  | .bool _ _ => exact .single (.same rfl)
  | .read _ source => exact (source.code_shifted n h).append (.single (.same rfl))
  | .negate _ operand => exact (operand.code_shifted n h).append (.single (.same rfl))
  | .binary _ op left right =>
    rw [Expr.code, Expr.code]
    exact ((left.code_shifted n h).append (right.code_shifted (n + 1) (by omega))).append
      (op.code_shifted n (by omega))

end

/-- The code of a condition is shifted with its labels and the one that it may go to. -/
lemma Expr.conditionCode_shifted (test : Expr) {m m' l l' : Nat} (hm : (m' : Int) = m + shift)
    (h : (l' : Int) = l + shift) :
    Shifted shift (test.conditionCode places (labelName m) l)
      (test.conditionCode places (labelName m') l') := by
  have hzeroTest (e : Expr) :
      Shifted shift (e.code places 0 l ++ [.branch .eq (bank 0) .zero (labelName m)])
        (e.code places 0 l' ++ [.branch .eq (bank 0) .zero (labelName m')]) :=
    (e.code_shifted 0 h).append (.single (.branch hm))
  match test with
  | .int _ _ => exact hzeroTest _
  | .bool _ _ => exact hzeroTest _
  | .read _ _ => exact hzeroTest _
  | .negate _ _ => exact hzeroTest _
  | .binary mark op left right =>
    rw [Expr.conditionCode, Expr.conditionCode]
    by_cases hop : op.isComparison = true
    · rw [if_pos hop, if_pos hop]
      exact ((left.code_shifted 0 h).append (right.code_shifted 1 (by omega))).append
        (.single (.branch hm))
    · rw [if_neg hop, if_neg hop]
      exact hzeroTest _

/-- The code of an argument is shifted with its labels. -/
lemma Formal.argumentCode_shifted (f : Formal) (argument : Expr) {l l' : Nat}
    (h : (l' : Int) = l + shift) :
    Shifted shift (f.argumentCode places argument l) (f.argumentCode places argument l') := by
  unfold argumentCode
  split
  · split
    · exact Variable.code_shifted _ 0 h
    · exact .nil
  · exact argument.code_shifted 0 h

/-- The code of arguments is shifted with their labels. -/
lemma argumentsCode_shifted (formals : List Formal) (arguments : List Expr) {offset : Int}
    {l l' : Nat} (h : (l' : Int) = l + shift) :
    Shifted shift (argumentsCode places formals arguments offset l)
      (argumentsCode places formals arguments offset l') := by
  induction formals generalizing arguments offset l l' with
  | nil => exact .nil
  | cons f formals ih =>
    cases arguments with
    | nil => exact .nil
    | cons argument arguments =>
      rw [argumentsCode, argumentsCode]
      exact (f.argumentCode_shifted argument h).append <|
        .cons (.same rfl) (ih arguments (by omega))

mutual

/-- The code of a statement is shifted with its labels. -/
lemma Stmt.code_shifted (s : Stmt) {l l' : Nat} (h : (l' : Int) = l + shift) :
    Shifted shift (s.code places signature l) (s.code places signature l') := by
  have hnext : ((l' + 1 : Nat) : Int) = (l + 1 : Nat) + shift := by omega
  match s with
  | .empty _ => exact .nil
  | .block _ body =>
    rw [Stmt.code, Stmt.code]
    exact codeOf_shifted body h
  | .assign _ target value =>
    rw [Stmt.code, Stmt.code]
    exact ((target.code_shifted 0 h).append (value.code_shifted 1 (by omega))).append
      (.single (.same rfl))
  | .ifThen _ test thenPart =>
    rw [Stmt.code, Stmt.code]
    exact ((test.conditionCode_shifted h hnext).append (thenPart.code_shifted (by omega))).append
      (.single (.label h))
  | .ifThenElse _ test thenPart elsePart =>
    rw [Stmt.code, Stmt.code]
    exact ((((test.conditionCode_shifted h (by omega)).append
      (thenPart.code_shifted (by omega))).append (.cons (.jump hnext) (.single (.label h)))).append
      (elsePart.code_shifted (by omega))).append (.single (.label hnext))
  | .loop _ test body =>
    rw [Stmt.code, Stmt.code]
    exact ((Shifted.cons (.label h) (test.conditionCode_shifted hnext (by omega))).append
      (body.code_shifted (by omega))).append (.cons (.jump h) (.single (.label hnext)))
  | .call _ callee arguments =>
    rw [Stmt.code, Stmt.code]
    exact (argumentsCode_shifted _ arguments h).append (.single (.same rfl))

/-- The code of statements is shifted with their labels. -/
lemma codeOf_shifted (body : List Stmt) {l l' : Nat} (h : (l' : Int) = l + shift) :
    Shifted shift (codeOf places signature body l) (codeOf places signature body l') := by
  match body with
  | [] => exact .nil
  | s :: rest =>
    rw [codeOf, codeOf]
    exact (s.code_shifted h).append (codeOf_shifted rest (by omega))

end

end

/-! ### The code of a procedure -/

/-- The code of the procedure that exports a name: what stands in some code from the export on, up to
the next one. -/
def segment (name : String) : Code → Code
  | [] => []
  | i :: rest =>
    if i = .exports name then i :: rest.takeWhile (!·.isExport) else segment name rest

section
variable {name : String} {code code' : Code}

/-- Code that does not export the name comes before the procedure. -/
lemma segment_append (h : .exports name ∉ code) :
    segment name (code ++ code') = segment name code' := by
  induction code with
  | nil => rfl
  | cons i code ih =>
    rw [List.mem_cons, not_or] at h
    rw [List.cons_append, segment, if_neg (Ne.symm h.1), ih h.2]

/-- The code of a procedure goes on up to the code of the next one. -/
lemma segment_exports (h : ∀ i ∈ code, i.isExport = false)
    (h' : ∀ i ∈ code'.head?, i.isExport = true) :
    segment name (.exports name :: code ++ code') = .exports name :: code := by
  rw [List.cons_append, segment, if_pos rfl, List.takeWhile_append_of_pos]
  · cases code' with
    | nil => rw [List.takeWhile_nil, List.append_nil]
    | cons i code' =>
      rw [List.takeWhile_cons_of_neg, List.append_nil]
      simp [h' i (by simp)]
  · intro i hi
    simp [h i hi]

end

/-- Two programs have the same code for a procedure: from the export to the jump back, the lines are
the same up to the numbers of the labels that are made up, which are all the same distance apart. -/
def Procedure.SameCode (q : Procedure) (code code' : Code) : Prop :=
  ∃ (shift : Int) (inner inner' : Code),
    segment q.name code =
      .exports q.name :: .label q.name :: (inner ++ [.jumpRegister .ra]) ∧
    segment q.name code' =
      .exports q.name :: .label q.name :: (inner' ++ [.jumpRegister .ra]) ∧
    Shifted shift inner inner'

/-- Two programs have the same code for a procedure up to the labels that are made up, whose numbers are
`shift` apart. -/
def Procedure.ShiftedCode (q : Procedure) (shift : Int) (code code' : Code) : Prop :=
  ∃ inner inner' : Code,
    segment q.name code =
      .exports q.name :: .label q.name :: (inner ++ [.jumpRegister .ra]) ∧
    segment q.name code' =
      .exports q.name :: .label q.name :: (inner' ++ [.jumpRegister .ra]) ∧
    Shifted shift inner inner'

section
variable (names : List (String × ValueShape)) (signature : String → Option (List Formal))
  {q : Procedure}

/-- The code of a procedure starts with its name and ends with the jump back, and what stands between
is shifted with the labels. -/
lemma Procedure.code_shifted {l l' : Nat} {shift : Int} (h : (l' : Int) = l + shift) :
    ∃ inner inner' : Code,
      q.code names signature l =
        .exports q.name :: .label q.name :: (inner ++ [.jumpRegister .ra]) ∧
      q.code names signature l' =
        .exports q.name :: .label q.name :: (inner' ++ [.jumpRegister .ra]) ∧
      Shifted shift inner inner' := by
  have henter : ∀ frame fp ra saves, Shifted shift (enterCode frame fp ra saves)
      (enterCode frame fp ra saves) := fun _ _ _ saves => .same (by cases saves <;> rfl)
  have hleave : ∀ frame fp ra saves, ∃ code, leaveCode frame fp ra saves =
      code ++ [.jumpRegister .ra] ∧ Shifted shift code code := by
    intro frame fp ra saves
    refine ⟨(if saves then [.load .ra .fp ra] else []) ++
      [.load .fp .sp fp, .arith .add .sp .sp (.integer frame)], ?_, .same (by cases saves <;> rfl)⟩
    rw [List.append_assoc]
    rfl
  obtain ⟨leaving, hleaving, hsame⟩ := hleave (q.frameBytes names signature)
    (q.outgoingBytes signature + Word.size) (-(q.localBytes names + 2 * Word.size))
    (!q.calls.isEmpty)
  have hbody : Shifted shift (codeOf (q.places names) signature q.body l)
      (codeOf (q.places names) signature q.body l') := codeOf_shifted q.body h
  refine ⟨_, _, ?_, ?_, ((henter (q.frameBytes names signature)
    (q.outgoingBytes signature + Word.size) (-(q.localBytes names + 2 * Word.size))
    (!q.calls.isEmpty)).append hbody).append hsame⟩
  · unfold code
    dsimp only
    rw [hleaving, ← List.append_assoc]
    rfl
  · unfold code
    dsimp only
    rw [hleaving, ← List.append_assoc]
    rfl

/-- Only the first line of the code of a procedure exports a name. -/
lemma Procedure.code_eq_exports {l : Nat} : ∃ rest : Code,
    q.code names signature l = .exports q.name :: rest ∧ ∀ i ∈ rest, i.isExport = false := by
  obtain ⟨inner, inner', hcode, -, hshifted⟩ :=
    q.code_shifted names signature (Int.add_zero l).symm
  refine ⟨_, hcode, fun i hi => ?_⟩
  simp only [List.mem_cons, List.mem_append, List.not_mem_nil, or_false] at hi
  rcases hi with rfl | hi | rfl
  · rfl
  · exact hshifted.isExport_eq_false i hi
  · rfl

/-- The code of a list of procedures starts with an export. -/
lemma isExport_head?_proceduresCode {qs : List Procedure} {l : Nat} :
    ∀ i ∈ (proceduresCode names signature qs l).head?, i.isExport = true := by
  intro i hi
  cases qs with
  | nil => cases hi
  | cons q rest =>
    cases hi
    rfl

/-- The code of a procedure is found in that of a list of procedures with different names.  Its labels
follow those of the procedures before it. -/
lemma segment_proceduresCode {before after : List Procedure}
    (hnodup : ((before ++ q :: after).map Procedure.name).Nodup) (l : Nat) :
    segment q.name (proceduresCode names signature (before ++ q :: after) l) =
      q.code names signature (l + (before.map fun r => labelsOf r.body).sum) := by
  induction before generalizing l with
  | nil =>
    obtain ⟨lines, hlines, hexports⟩ := q.code_eq_exports names signature (l := l)
    rw [List.nil_append, proceduresCode, List.map_nil, List.sum_nil, Nat.add_zero, hlines]
    exact segment_exports hexports (isExport_head?_proceduresCode names signature)
  | cons first before ih =>
    rw [List.cons_append, List.map_cons, List.nodup_cons] at hnodup
    obtain ⟨lines, hlines, hexports⟩ :=
      first.code_eq_exports names signature (l := l)
    have hne : q.name ≠ first.name := by
      intro heq
      apply hnodup.1
      rw [← heq]
      exact List.mem_map_of_mem (List.mem_append_right _ List.mem_cons_self)
    rw [List.cons_append, proceduresCode, segment_append]
    · rw [ih hnodup.2, List.map_cons, List.sum_cons, Nat.add_assoc]
    · rw [hlines, List.mem_cons, not_or]
      refine ⟨fun heq => hne (Instruction.exports.inj heq), fun hmem => ?_⟩
      cases hexports _ hmem

/-- The code of a procedure is found in that of a program whose procedures have different names. -/
lemma Program.segment_code {p : Program} {before after : List Procedure}
    (hnodup : (p.procedures.map Procedure.name).Nodup) (hq : p.procedures = before ++ q :: after) :
    segment q.name p.code =
      q.code p.typeNames p.signature (before.map fun r => labelsOf r.body).sum := by
  have hhead : ∀ i ∈ headCode, i.isExport = false := by decide
  have hnot : .exports q.name ∉ headCode := by
    intro hmem
    cases hhead _ hmem
  rw [hq] at hnodup
  rw [code, segment_append hnot, hq, segment_proceduresCode _ _ hnodup, Nat.zero_add]

/-- Code of a procedure that is found in two programs is shifted by the distance of its labels. -/
lemma Procedure.shiftedCode {code code' : Code} {l l' : Nat} {shift : Int}
    (hcode : segment q.name code = q.code names signature l)
    (hcode' : segment q.name code' = q.code names signature l') (h : (l' : Int) = l + shift) :
    q.ShiftedCode shift code code' := by
  obtain ⟨inner, inner', hinner, hinner', hshifted⟩ := q.code_shifted names signature h
  exact ⟨inner, inner', hcode.trans hinner, hcode'.trans hinner', hshifted⟩

end

end TreeCompiler
