import TreeCompiler.Proofs.Emission.Symbols
import TreeCompiler.Proofs.Order.Shifted

/-!
# Jumps

The labels that are made up for a construct come with jumps: each of them is jumped to
(`Stmt.Shaped.labelsFrom_subset`), and the only jumps that go back are those from the end of a
loop to its test (`Stmt.Shaped.backsTo_code`).  Whether a jump goes back is told by the numbers of
the labels, since the labels of a construct are in a range of their own (`Code.LabelsIn`,
`Code.JumpsIn`).
-/

namespace TreeCompiler

/-! ### Labels and jumps back -/

/-- The label that a line is. -/
def Instruction.label? : Instruction → Option String
  | .label name => some name
  | _ => none

/-- The labels in code, in order. -/
def Code.labels (code : Code) : List String := code.filterMap Instruction.label?

/-- A line of code names a label that is not behind it. -/
def Code.JumpsBack (code : Code) (i : Instruction) : Prop :=
  ∃ (m k : Nat) (name : String), m ≤ k ∧ code[m]? = some (Instruction.label name) ∧
    code[k]? = some i ∧ i.jumpTarget? = some name

/-- The only lines that name a label that is not behind them are jumps to certain labels that are
made up. -/
def Code.BacksTo (tests : List Nat) (code : Code) : Prop :=
  ∀ i, code.JumpsBack i → ∃ n ∈ tests, i = .jump (labelName n)

/-! ### Jumps in pieces of code -/

section
variable {code code' : Code} {i : Instruction} {name : String} {tests tests' : List Nat}

/-- The labels of code are the lines of that kind. -/
lemma Code.mem_labels : name ∈ code.labels ↔ .label name ∈ code := by
  unfold Code.labels
  rw [List.mem_filterMap]
  constructor
  · rintro ⟨i, hi, hname⟩
    cases i <;> cases hname
    exact hi
  · intro h
    exact ⟨_, h, rfl⟩

/-- The labels of pieces of code. -/
lemma Code.labels_append : Code.labels (code ++ code') = code.labels ++ code'.labels :=
  List.filterMap_append

/-- What is jumped to is named by a line. -/
lemma mem_jumpTargets : name ∈ jumpTargets code ↔ ∃ i ∈ code, i.jumpTarget? = some name :=
  List.mem_filterMap

/-- A jump back in two pieces of code is one in either of them, or goes from the second to the
first. -/
lemma Code.JumpsBack.of_append (h : Code.JumpsBack (code ++ code') i) :
    code.JumpsBack i ∨ code'.JumpsBack i ∨
      i ∈ code' ∧ ∃ name ∈ code.labels, i.jumpTarget? = some name := by
  obtain ⟨m, k, name, hle, hlabel, hi, hname⟩ := h
  by_cases hk : k < code.length
  · rw [List.getElem?_append_left hk] at hi
    rw [List.getElem?_append_left (by omega)] at hlabel
    exact .inl ⟨m, k, name, hle, hlabel, hi, hname⟩
  · rw [List.getElem?_append_right (by omega)] at hi
    by_cases hm : m < code.length
    · rw [List.getElem?_append_left hm] at hlabel
      exact .inr (.inr ⟨List.mem_of_getElem? hi, name,
        Code.mem_labels.mpr (List.mem_of_getElem? hlabel), hname⟩)
    · rw [List.getElem?_append_right (by omega)] at hlabel
      exact .inr (.inl ⟨_, _, name, by omega, hlabel, hi, hname⟩)

namespace Code.BacksTo

/-- Code without labels has no jumps back. -/
lemma of_labels (h : code.labels = []) : code.BacksTo tests := by
  rintro i ⟨m, k, name, -, hlabel, -, -⟩
  have hmem := Code.mem_labels.mpr (List.mem_of_getElem? hlabel)
  rw [h] at hmem
  cases hmem

/-- Code without jumps has no jumps back. -/
lemma of_jumpTargets (h : jumpTargets code = []) : code.BacksTo tests := by
  rintro i ⟨m, k, name, -, -, hi, hname⟩
  have hmem := mem_jumpTargets.mpr ⟨i, List.mem_of_getElem? hi, hname⟩
  rw [h] at hmem
  cases hmem

/-- Jumps may go back to more labels. -/
lemma mono (h : code.BacksTo tests) (hsubset : tests ⊆ tests') : code.BacksTo tests' := by
  intro i hi
  obtain ⟨n, hn, heq⟩ := h i hi
  exact ⟨n, hsubset hn, heq⟩

/-- Jumps go back in two pieces of code as they do in each of them, if those from the second to the
first do so too. -/
lemma append_of (h : code.BacksTo tests) (h' : code'.BacksTo tests)
    (hcross : ∀ i ∈ code', ∀ name ∈ code.labels, i.jumpTarget? = some name →
      ∃ n ∈ tests, i = .jump (labelName n)) : Code.BacksTo tests (code ++ code') := by
  intro i hi
  rcases hi.of_append with hi | hi | ⟨hmem, name, hname, htarget⟩
  · exact h i hi
  · exact h' i hi
  · exact hcross i hmem name hname htarget

/-- Jumps that stand before all labels do not go back. -/
lemma of_jumps_labels (code : Code) (h : code.labels = []) (h' : jumpTargets code' = []) :
    Code.BacksTo tests (code ++ code') := by
  refine append_of (.of_labels h) (.of_jumpTargets h') fun i hi name hname htarget => ?_
  have hmem := mem_jumpTargets.mpr ⟨i, hi, htarget⟩
  rw [h'] at hmem
  cases hmem

end Code.BacksTo

end

/-! ### Labels in a range -/

/-- The labels of code are made up, with numbers in a range. -/
def Code.LabelsIn (first next : Nat) (code : Code) : Prop :=
  ∀ name ∈ code.labels, ∃ n, first ≤ n ∧ n < next ∧ name = labelName n

/-- Jumps of code go to the index error or to labels that are made up, with numbers in a range. -/
def Code.JumpsIn (first next : Nat) (code : Code) : Prop :=
  ∀ name ∈ jumpTargets code, name = indexErrorLabel ∨ ∃ n, first ≤ n ∧ n < next ∧ name = labelName n

section
variable {code code' : Code} {first next first' next' l n : Nat} {name : String}
  {outside called : List String} {tests : List Nat}

/-- The labels from a number on. -/
lemma mem_labelsFrom : name ∈ labelsFrom l n ↔ ∃ k, l ≤ k ∧ k < l + n ∧ name = labelName k := by
  unfold labelsFrom
  rw [List.mem_map]
  constructor
  · rintro ⟨k, hk, rfl⟩
    rw [List.mem_range'_1] at hk
    exact ⟨k, hk.1, hk.2, rfl⟩
  · rintro ⟨k, hle, hlt, rfl⟩
    exact ⟨k, List.mem_range'_1.mpr ⟨hle, hlt⟩, rfl⟩

/-- The labels of two pieces of code. -/
lemma Code.LabelsIn.append (h : code.LabelsIn first next) (h' : code'.LabelsIn first next) :
    Code.LabelsIn first next (code ++ code') := by
  intro name hname
  rw [Code.labels_append, List.mem_append] at hname
  exact hname.elim (h name) (h' name)

/-- The range of labels can be larger. -/
lemma Code.LabelsIn.mono (h : code.LabelsIn first next) (hfirst : first' ≤ first)
    (hnext : next ≤ next') : code.LabelsIn first' next' := by
  intro name hname
  obtain ⟨n, hle, hlt, heq⟩ := h name hname
  exact ⟨n, hfirst.trans hle, hlt.trans_le hnext, heq⟩

/-- Code that introduces labels from a number on has these labels. -/
lemma Links.labelsIn (h : Links code (labelsFrom l n) outside called) : code.LabelsIn l (l + n) := by
  intro name hname
  refine mem_labelsFrom.mp (h.symbols.subset (List.mem_filterMap.mpr ?_))
  exact ⟨_, Code.mem_labels.mp hname, rfl⟩

/-- Code that introduces labels from a number on jumps to these, or to what is outside. -/
lemma Links.jumpsIn (h : Links code (labelsFrom l n) outside called) (hfirst : first ≤ l)
    (hnext : l + n ≤ next)
    (houtside : ∀ name ∈ outside, name = indexErrorLabel ∨
      ∃ k, first ≤ k ∧ k < next ∧ name = labelName k) : code.JumpsIn first next := by
  intro name hname
  rcases List.mem_append.mp (h.targets hname) with hmem | hmem
  · obtain ⟨k, hle, hlt, heq⟩ := mem_labelsFrom.mp hmem
    exact .inr ⟨k, hfirst.trans hle, hlt.trans_le hnext, heq⟩
  · exact houtside name hmem

/-- The label of the index error is not made up. -/
lemma indexErrorLabel_ne_labelName : indexErrorLabel ≠ labelName n :=
  Program.ne_labelName (by decide) n

/-- Jumps go back in two pieces of code as they do in each of them, if the second one does not
jump to labels of the first one. -/
lemma Code.BacksTo.append (h : code.BacksTo tests) (h' : code'.BacksTo tests)
    (hlabels : code.LabelsIn first next) (hjumps : code'.JumpsIn first' next')
    (hapart : next ≤ first' ∨ next' ≤ first) : Code.BacksTo tests (code ++ code') := by
  refine h.append_of h' fun i hi name hname htarget => ?_
  obtain ⟨k, hle, hlt, rfl⟩ := hlabels name hname
  rcases hjumps _ (mem_jumpTargets.mpr ⟨i, hi, htarget⟩) with heq | ⟨k', hle', hlt', heq⟩
  · exact absurd heq.symm indexErrorLabel_ne_labelName
  · have hsame := labelName_injective heq
    omega

/-- Jumps go back in two pieces of code as they do in each of them, if the labels of the second one
follow those of the first. -/
lemma Code.BacksTo.append_links {m : Nat} {called' : List String} (h : code.BacksTo tests)
    (h' : code'.BacksTo tests) (hlinks : Links code (labelsFrom l n) outside called)
    (hlinks' : Links code' (labelsFrom (l + n) m) [indexErrorLabel] called') :
    Code.BacksTo tests (code ++ code') :=
  h.append h' hlinks.labelsIn (hlinks'.jumpsIn le_rfl le_rfl (by simp)) (.inl le_rfl)

end

/-! ### Expressions do not jump back -/

section
variable {places : List (String × Place)} {tests : List Nat}

/-- The code of an operator does not jump back. -/
lemma BinaryOp.backsTo_code (op : BinaryOp) (n l : Nat) : Code.BacksTo tests (op.code n l) := by
  unfold BinaryOp.code
  split
  · exact .of_jumpTargets rfl
  · exact .of_jumps_labels [.branch op.inverseBranch (bank n) (bank (n + 1)) (labelName l),
      loadInteger (bank n) 1, .jump (labelName (l + 1))] rfl rfl

mutual

/-- The code of a variable does not jump back. -/
lemma Variable.backsTo_code (v : Variable) (n l : Nat) :
    Code.BacksTo tests (v.code places n l) := by
  match v with
  | .named _ name =>
    rw [Variable.code]
    split
    · unfold Place.code
      split <;> exact .of_labels rfl
    · exact .of_labels rfl
  | .element _ array index =>
    have harray := array.links_code places n l
    have hindex := index.links_code places (n + 1) (l + array.labels)
    have hboth := (array.backsTo_code n l).append_links (index.backsTo_code _ _) harray hindex
    have hlinks := harray.append hindex
    rw [← labelsFrom_add] at hlinks
    rw [Variable.code]
    split
    · rename_i length s _
      have hcheck : Links (indexCode n length (Word.size * s.cells))
          (labelsFrom (l + (array.labels + index.labels)) 0) [indexErrorLabel] [] :=
        ⟨.refl _, List.Subset.refl _, rfl⟩
      exact hboth.append_links (.of_labels rfl) hlinks hcheck
    · rwa [List.append_nil]

/-- The code of an expression does not jump back. -/
lemma Expr.backsTo_code (e : Expr) (n l : Nat) : Code.BacksTo tests (e.code places n l) := by
  match e with
  | .int _ _ => exact .of_labels rfl
  | .bool _ _ => exact .of_labels rfl
  | .read _ source =>
    exact (source.backsTo_code n l).append_of (.of_labels rfl) (by simp [Instruction.jumpTarget?])
  | .negate _ operand =>
    exact (operand.backsTo_code n l).append_of (.of_labels rfl) (by simp [Instruction.jumpTarget?])
  | .binary _ op left right =>
    have hleft := left.links_code places n l
    have hright := right.links_code places (n + 1) (l + left.labels)
    have hboth := (left.backsTo_code n l).append_links (right.backsTo_code _ _) hleft hright
    have hlinks := hleft.append hright
    have hop := op.links_code n (l + left.labels + right.labels)
    rw [← labelsFrom_add] at hlinks
    rw [Nat.add_assoc] at hop
    rw [Expr.code, Nat.add_assoc]
    exact hboth.append_links (op.backsTo_code n _) hlinks hop

end

/-- The code of a condition does not jump back, if the label that it may go to is older than its
own. -/
lemma Expr.backsTo_conditionCode (test : Expr) {m l : Nat} (hm : m < l) :
    Code.BacksTo tests (test.conditionCode places (labelName m) l) := by
  have hbranch : ∀ {code : Code} {i : Instruction} {n : Nat}, code.BacksTo tests →
      Links code (labelsFrom l n) [indexErrorLabel] [] → i.jumpTarget? = some (labelName m) →
      i.label? = none → Code.BacksTo tests (code ++ [i]) := by
    intro code i n hcode hlinks htarget hlabel
    have hjumps : Code.JumpsIn m (m + 1) [i] := by
      intro name hname
      obtain ⟨i', hi', hname⟩ := mem_jumpTargets.mp hname
      rw [List.mem_singleton.mp hi', htarget] at hname
      cases hname
      exact .inr ⟨m, le_rfl, Nat.lt_succ_self m, rfl⟩
    refine hcode.append (.of_labels ?_) hlinks.labelsIn hjumps (.inr hm)
    simp [Code.labels, hlabel]
  match test with
  | .int _ _ => exact hbranch (Expr.backsTo_code _ _ _) (Expr.links_code places _ _ _) rfl rfl
  | .bool _ _ => exact hbranch (Expr.backsTo_code _ _ _) (Expr.links_code places _ _ _) rfl rfl
  | .read _ _ => exact hbranch (Expr.backsTo_code _ _ _) (Expr.links_code places _ _ _) rfl rfl
  | .negate _ _ => exact hbranch (Expr.backsTo_code _ _ _) (Expr.links_code places _ _ _) rfl rfl
  | .binary mark op left right =>
    rw [Expr.conditionCode]
    split
    · have hleft := left.links_code places 0 l
      have hright := right.links_code places 1 (l + left.labels)
      have hlinks := hleft.append hright
      rw [← labelsFrom_add] at hlinks
      exact hbranch ((left.backsTo_code 0 l).append_links (right.backsTo_code _ _) hleft hright)
        hlinks rfl rfl
    · exact hbranch (Expr.backsTo_code _ _ _) (Expr.links_code places _ _ _) rfl rfl

/-- The code of arguments does not jump back. -/
lemma backsTo_argumentsCode {formals : List Formal} {arguments : List Expr}
    (h : List.Forall₂ (Formal.Accepts places) formals arguments) (offset : Int) (l : Nat) :
    Code.BacksTo tests (argumentsCode places formals arguments offset l) := by
  induction h generalizing offset l with
  | nil => exact .of_labels rfl
  | @cons f argument formals arguments hf _ ih =>
    have hargument : Code.BacksTo tests (f.argumentCode places argument l) := by
      unfold Formal.argumentCode
      split
      · split
        · exact Variable.backsTo_code _ _ _
        · exact .of_labels rfl
      · exact argument.backsTo_code 0 l
    have hstore : Links [.store (bank 0) .sp offset] [] [indexErrorLabel] [] := .plain rfl rfl rfl
    have hlinks := (hf.links_argumentCode l).append hstore
    rw [List.append_nil] at hlinks
    rw [argumentsCode, List.append_cons]
    refine Code.BacksTo.append_links ?_ (ih _ _) hlinks (links_argumentsCode ‹_› _ _)
    exact hargument.append_of (.of_labels rfl) (by simp [Instruction.jumpTarget?])

end

/-! ### Every label is jumped to -/

/-- What pieces of code jump to. -/
lemma jumpTargets_append {code code' : Code} :
    jumpTargets (code ++ code') = jumpTargets code ++ jumpTargets code' := List.filterMap_append

section
variable {places : List (String × Place)} {signature : String → Option (List Formal)}

/-- The labels of two pieces of code are jumped to if those of each of them are. -/
lemma labelsFrom_subset_append {code code' : Code} {l m n : Nat}
    (h : labelsFrom l m ⊆ jumpTargets code) (h' : labelsFrom (l + m) n ⊆ jumpTargets code') :
    labelsFrom l (m + n) ⊆ jumpTargets (code ++ code') := by
  rw [labelsFrom_add, jumpTargets_append]
  exact List.append_subset.mpr ⟨fun _ hname => List.mem_append_left _ (h hname),
    fun _ hname => List.mem_append_right _ (h' hname)⟩

/-- A label and those that follow it. -/
lemma labelsFrom_succ_subset {names : List String} {l n : Nat} (hfirst : labelName l ∈ names)
    (hrest : labelsFrom (l + 1) n ⊆ names) : labelsFrom l (1 + n) ⊆ names := by
  rw [labelsFrom_add, labelsFrom_one]
  exact List.cons_subset.mpr ⟨hfirst, hrest⟩

/-- More code jumps to the same labels. -/
lemma labelsFrom_subset_append_left {code : Code} {l n : Nat} (h : labelsFrom l n ⊆ jumpTargets code)
    (code' : Code) : labelsFrom l n ⊆ jumpTargets (code ++ code') := by
  rw [jumpTargets_append]
  exact fun _ hname => List.mem_append_left _ (h hname)

/-- The labels of an operator are jumped to. -/
lemma BinaryOp.labelsFrom_subset (op : BinaryOp) (n l : Nat) :
    labelsFrom l (if op.isComparison then 2 else 0) ⊆ jumpTargets (op.code n l) := by
  cases harith : op.arith? with
  | some arith =>
    rw [BinaryOp.arith?_eq_some harith]
    exact List.nil_subset _
  | none =>
    rw [BinaryOp.arith?_eq_none harith, BinaryOp.code, harith]
    exact List.Subset.refl _

mutual

/-- The labels of a variable are jumped to. -/
lemma Variable.labelsFrom_subset (v : Variable) (n l : Nat) :
    labelsFrom l v.labels ⊆ jumpTargets (v.code places n l) := by
  match v with
  | .named _ _ => exact List.nil_subset _
  | .element _ array index =>
    rw [Variable.code, Variable.labels]
    exact labelsFrom_subset_append_left (labelsFrom_subset_append (array.labelsFrom_subset n l)
      (index.labelsFrom_subset _ _)) _

/-- The labels of an expression are jumped to. -/
lemma Expr.labelsFrom_subset (e : Expr) (n l : Nat) :
    labelsFrom l e.labels ⊆ jumpTargets (e.code places n l) := by
  match e with
  | .int _ _ | .bool _ _ => exact List.nil_subset _
  | .read _ source => exact labelsFrom_subset_append_left (source.labelsFrom_subset n l) _
  | .negate _ operand => exact labelsFrom_subset_append_left (operand.labelsFrom_subset n l) _
  | .binary _ op left right =>
    rw [Expr.code, Expr.labels]
    refine labelsFrom_subset_append (labelsFrom_subset_append (left.labelsFrom_subset n l)
      (right.labelsFrom_subset _ _)) ?_
    rw [← Nat.add_assoc]
    exact op.labelsFrom_subset n _

end

/-- The label that a condition may go to is jumped to. -/
lemma Expr.mem_jumpTargets_conditionCode (test : Expr) (falseLabel : String) (l : Nat) :
    falseLabel ∈ jumpTargets (test.conditionCode places falseLabel l) := by
  rw [Expr.conditionCode_eq]
  refine mem_jumpTargets.mpr ⟨test.testBranch falseLabel 0, by simp, ?_⟩
  cases test with
  | binary mark op left right =>
    rw [Expr.testBranch]
    split <;> rfl
  | int | bool | read | negate => rfl

/-- The labels of a condition are jumped to. -/
lemma Expr.labelsFrom_subset_conditionCode (test : Expr) {falseLabel : String} (l : Nat) :
    labelsFrom l test.conditionLabels ⊆ jumpTargets (test.conditionCode places falseLabel l) := by
  have hvalue (e : Expr) : labelsFrom l e.labels ⊆ jumpTargets (e.code places 0 l) :=
    e.labelsFrom_subset 0 l
  rw [Expr.conditionCode_eq]
  refine labelsFrom_subset_append_left ?_ _
  cases test with
  | binary mark op left right =>
    rw [Expr.testCode, Expr.conditionLabels]
    by_cases hop : op.isComparison = true
    · rw [if_pos hop, if_pos hop]
      exact labelsFrom_subset_append (left.labelsFrom_subset 0 l) (right.labelsFrom_subset _ _)
    · rw [if_neg hop, if_neg hop]
      exact hvalue _
  | int | bool | read | negate => exact hvalue _

/-- The labels of arguments are jumped to. -/
lemma labelsFrom_subset_argumentsCode {formals : List Formal} {arguments : List Expr}
    (h : List.Forall₂ (Formal.Accepts places) formals arguments) (offset : Int) (l : Nat) :
    labelsFrom l (argumentsLabels arguments) ⊆
      jumpTargets (argumentsCode places formals arguments offset l) := by
  induction h generalizing offset l with
  | nil => exact List.nil_subset _
  | @cons f argument formals arguments hf _ ih =>
    have hargument : labelsFrom l argument.labels ⊆
        jumpTargets (f.argumentCode places argument l) := by
      unfold Formal.argumentCode
      split
      · rename_i href
        obtain ⟨v, hv⟩ := Option.isSome_iff_exists.mp (hf.2 href)
        rw [hv]
        obtain ⟨mark, rfl⟩ := Expr.variable?_eq_some.mp hv
        exact v.labelsFrom_subset 0 l
      · exact argument.labelsFrom_subset 0 l
    have hlabels : argumentsLabels (argument :: arguments) =
        argument.labels + argumentsLabels arguments := rfl
    rw [argumentsCode, hlabels, List.append_cons]
    exact labelsFrom_subset_append (labelsFrom_subset_append_left hargument _) (ih _ _)

mutual

/-- The labels of a statement are jumped to. -/
lemma Stmt.Shaped.labelsFrom_subset {s : Stmt} (hs : s.Shaped places signature) (l : Nat) :
    labelsFrom l s.labels ⊆ jumpTargets (s.code places signature l) := by
  match s, hs with
  | .empty _, _ => exact List.nil_subset _
  | .block _ body, .block hbody => exact labelsFrom_subset_codeOf hbody l
  | .assign _ target value, .assign _ _ =>
    rw [Stmt.code, Stmt.labels]
    exact labelsFrom_subset_append_left (labelsFrom_subset_append (target.labelsFrom_subset 0 l)
      (value.labelsFrom_subset _ _)) _
  | .ifThen _ test thenPart, .ifThen _ hthen =>
    rw [Stmt.code, Stmt.labels, Nat.add_assoc]
    refine labelsFrom_succ_subset ?_ (labelsFrom_subset_append_left (labelsFrom_subset_append
      (test.labelsFrom_subset_conditionCode _) (hthen.labelsFrom_subset _)) _)
    simp only [jumpTargets_append, List.mem_append]
    exact .inl (.inl (test.mem_jumpTargets_conditionCode _ _))
  | .ifThenElse _ test thenPart elsePart, .ifThenElse _ hthen helse =>
    have hlabels : 2 + test.conditionLabels + thenPart.labels + elsePart.labels =
        1 + (1 + (test.conditionLabels + thenPart.labels + elsePart.labels)) := by omega
    rw [Stmt.code, Stmt.labels, hlabels]
    refine labelsFrom_succ_subset ?_ (labelsFrom_succ_subset ?_ (labelsFrom_subset_append_left
      (labelsFrom_subset_append (labelsFrom_subset_append_left (labelsFrom_subset_append
        (test.labelsFrom_subset_conditionCode _) (hthen.labelsFrom_subset _)) _) ?_) _))
    · simp only [jumpTargets_append, List.mem_append]
      exact .inl (.inl (.inl (.inl (test.mem_jumpTargets_conditionCode _ _))))
    · simp only [jumpTargets_append, List.mem_append]
      exact .inl (.inl (.inr List.mem_cons_self))
    · rw [← Nat.add_assoc]
      exact helse.labelsFrom_subset _
  | .loop _ test body, .loop _ hbody =>
    have hlabels : 2 + test.conditionLabels + body.labels =
        1 + (1 + (test.conditionLabels + body.labels)) := by omega
    rw [Stmt.code, Stmt.labels, hlabels]
    refine labelsFrom_succ_subset ?_ (labelsFrom_succ_subset ?_ (labelsFrom_subset_append_left
      (labelsFrom_subset_append (test.labelsFrom_subset_conditionCode _) (hbody.labelsFrom_subset _))
      _))
    · simp only [jumpTargets_append, List.mem_append]
      exact .inr List.mem_cons_self
    · simp only [jumpTargets_append, List.mem_append]
      exact .inl (.inl (test.mem_jumpTargets_conditionCode _ _))
  | .call _ callee arguments, @Stmt.Shaped.call _ _ _ _ _ formals hcallee harguments =>
    rw [Stmt.code, Stmt.labels, hcallee]
    exact labelsFrom_subset_append_left (labelsFrom_subset_argumentsCode harguments 0 l) _

/-- The labels of a list of statements are jumped to. -/
lemma labelsFrom_subset_codeOf {body : List Stmt} (hbody : ∀ s ∈ body, s.Shaped places signature)
    (l : Nat) : labelsFrom l (labelsOf body) ⊆ jumpTargets (codeOf places signature body l) := by
  match body with
  | [] => exact List.nil_subset _
  | s :: rest =>
    obtain ⟨hs, hrest⟩ := List.forall_mem_cons.mp hbody
    rw [codeOf, labelsOf]
    exact labelsFrom_subset_append (hs.labelsFrom_subset l) (labelsFrom_subset_codeOf hrest _)

end

end

/-! ### Loops -/

mutual

/-- The loops of a statement with `l` labels taken: the numbers of the labels in front of their
tests, and the tests. -/
def Stmt.loops : Stmt → Nat → List (Nat × Expr)
  | .empty _, _ | .assign _ _ _, _ | .call _ _ _, _ => []
  | .block _ body, l => loopsOf body l
  | .ifThen _ test thenPart, l => thenPart.loops (l + 1 + test.conditionLabels)
  | .ifThenElse _ test thenPart elsePart, l =>
    thenPart.loops (l + 2 + test.conditionLabels) ++
      elsePart.loops (l + 2 + test.conditionLabels + thenPart.labels)
  | .loop _ test body, l => (l, test) :: body.loops (l + 2 + test.conditionLabels)

/-- The loops of a list of statements with `l` labels taken. -/
def loopsOf : List Stmt → Nat → List (Nat × Expr)
  | [], _ => []
  | s :: rest, l => s.loops l ++ loopsOf rest (l + s.labels)

end

mutual

/-- The tests of the loops of a statement. -/
def Stmt.loopTests : Stmt → List Expr
  | .empty _ | .assign _ _ _ | .call _ _ _ => []
  | .block _ body => loopTestsOf body
  | .ifThen _ _ thenPart => thenPart.loopTests
  | .ifThenElse _ _ thenPart elsePart => thenPart.loopTests ++ elsePart.loopTests
  | .loop _ test body => test :: body.loopTests

/-- The tests of the loops of a list of statements. -/
def loopTestsOf : List Stmt → List Expr
  | [] => []
  | s :: rest => s.loopTests ++ loopTestsOf rest

end

mutual

/-- The loops of a statement are those that are written in it. -/
lemma Stmt.map_snd_loops (s : Stmt) (l : Nat) : (s.loops l).map Prod.snd = s.loopTests := by
  match s with
  | .empty _ | .assign _ _ _ | .call _ _ _ => rfl
  | .block _ body => exact map_snd_loopsOf body l
  | .ifThen _ _ thenPart => exact thenPart.map_snd_loops _
  | .ifThenElse _ _ thenPart elsePart =>
    rw [Stmt.loops, Stmt.loopTests, List.map_append, thenPart.map_snd_loops, elsePart.map_snd_loops]
  | .loop _ _ body => rw [Stmt.loops, Stmt.loopTests, List.map_cons, body.map_snd_loops]

/-- The loops of a list of statements are those that are written in it. -/
lemma map_snd_loopsOf (body : List Stmt) (l : Nat) :
    (loopsOf body l).map Prod.snd = loopTestsOf body := by
  match body with
  | [] => rfl
  | s :: rest => rw [loopsOf, loopTestsOf, List.map_append, s.map_snd_loops, map_snd_loopsOf rest]

end

section
variable {places : List (String × Place)} {signature : String → Option (List Formal)}

/-- The code of a loop's test, behind the label that is jumped back to. -/
def loopHead (places : List (String × Place)) (loop : Nat × Expr) : Code :=
  .label (labelName loop.1) ::
    loop.2.conditionCode places (labelName (loop.1 + 1)) (loop.1 + 2)

mutual

/-- The code of a statement contains the tests of its loops. -/
lemma Stmt.loopHead_infix (s : Stmt) (l : Nat) :
    ∀ loop ∈ s.loops l, loopHead places loop <:+: s.code places signature l := by
  match s with
  | .empty _ | .assign _ _ _ | .call _ _ _ => simp [Stmt.loops]
  | .block _ body => exact loopHead_infix_codeOf body l
  | .ifThen _ test thenPart =>
    intro loop hloop
    exact (thenPart.loopHead_infix _ loop hloop).trans (List.infix_append _ _ _)
  | .ifThenElse _ test thenPart elsePart =>
    intro loop hloop
    rcases List.mem_append.mp hloop with hloop | hloop
    · exact ((thenPart.loopHead_infix _ loop hloop).trans (List.infix_append _ _ _)).trans
        ((List.prefix_append _ _).trans (List.prefix_append _ _)).isInfix
    · exact (elsePart.loopHead_infix _ loop hloop).trans (List.infix_append _ _ _)
  | .loop _ test body =>
    intro loop hloop
    rcases List.mem_cons.mp hloop with rfl | hloop
    · exact ((List.prefix_append _ _).trans (List.prefix_append _ _)).isInfix
    · exact (body.loopHead_infix _ loop hloop).trans (List.infix_append _ _ _)

/-- The code of a list of statements contains the tests of their loops. -/
lemma loopHead_infix_codeOf (body : List Stmt) (l : Nat) :
    ∀ loop ∈ loopsOf body l, loopHead places loop <:+: codeOf places signature body l := by
  match body with
  | [] => simp [loopsOf]
  | s :: rest =>
    intro loop hloop
    rcases List.mem_append.mp hloop with hloop | hloop
    · exact (s.loopHead_infix l loop hloop).trans (List.prefix_append _ _).isInfix
    · exact (loopHead_infix_codeOf rest _ loop hloop).trans (List.suffix_append _ _).isInfix

end

mutual

/-- The code of a statement jumps back only to the tests of its loops. -/
lemma Stmt.Shaped.backsTo_code {s : Stmt} (hs : s.Shaped places signature) (l : Nat) :
    Code.BacksTo ((s.loops l).map Prod.fst) (s.code places signature l) := by
  match s, hs with
  | .empty _, _ => exact .of_labels rfl
  | .block _ body, .block hbody => exact backsTo_codeOf hbody l
  | .assign _ target value, .assign _ _ =>
    rw [Stmt.code]
    refine Code.BacksTo.append_of ?_ (.of_labels rfl) (by simp [Instruction.jumpTarget?])
    exact (target.backsTo_code 0 l).append_links (value.backsTo_code _ _)
      (target.links_code places 0 l) (value.links_code places 1 _)
  | .ifThen _ test thenPart, .ifThen _ hthen =>
    rw [Stmt.code]
    refine Code.BacksTo.append_of ?_ (.of_jumpTargets rfl) (by simp [Instruction.jumpTarget?])
    exact (test.backsTo_conditionCode (Nat.lt_succ_self l)).append_links (hthen.backsTo_code _)
      (test.links_conditionCode places _ _) (hthen.links_code _)
  | .ifThenElse _ test thenPart elsePart, .ifThenElse _ hthen helse =>
    have htest := test.links_conditionCode places (labelName l) (l + 2)
    have hthenPart := hthen.links_code (l + 2 + test.conditionLabels)
    have helsePart := helse.links_code (l + 2 + test.conditionLabels + thenPart.labels)
    have hends : Code.JumpsIn (l + 1) (l + 2) [.jump (labelName (l + 1)), .label (labelName l)] :=
      fun name hname => .inr ⟨l + 1, le_rfl, by omega, List.mem_singleton.mp hname⟩
    have hstarts : Code.LabelsIn l (l + 1) [.jump (labelName (l + 1)), .label (labelName l)] :=
      fun name hname => ⟨l, le_rfl, by omega, List.mem_singleton.mp hname⟩
    have hlabels := (htest.labelsIn.mono le_rfl (Nat.le_add_right _ thenPart.labels)).append
      (hthenPart.labelsIn.mono (Nat.le_add_right _ _) le_rfl)
    rw [Stmt.code, Stmt.loops, List.map_append]
    refine Code.BacksTo.append_of ?_ (.of_jumpTargets rfl) (by simp [Instruction.jumpTarget?])
    -- the labels before the second part are older than those that it jumps to
    refine Code.BacksTo.append ?_ ((helse.backsTo_code _).mono (List.subset_append_right _ _))
      ((hlabels.mono (by omega) le_rfl).append (hstarts.mono le_rfl (by omega)))
      (helsePart.jumpsIn le_rfl le_rfl (by simp)) (.inl le_rfl)
    -- the label of the end is older than all labels before the jump to it
    refine Code.BacksTo.append ?_ (.of_jumps_labels [_] rfl rfl)
      hlabels hends (.inr le_rfl)
    exact (test.backsTo_conditionCode (by omega)).append_links
      ((hthen.backsTo_code _).mono (List.subset_append_left _ _)) htest hthenPart
  | .loop _ test body, .loop _ hbody =>
    have htest := test.links_conditionCode places (labelName (l + 1)) (l + 2)
    have hbodyPart := hbody.links_code (l + 2 + test.conditionLabels)
    have hstart : Code.LabelsIn l (l + 1) [.label (labelName l)] :=
      fun name hname => ⟨l, le_rfl, by omega, List.mem_singleton.mp hname⟩
    have hends : ∀ name ∈ [indexErrorLabel, labelName (l + 1)], name = indexErrorLabel ∨
        ∃ k, l + 1 ≤ k ∧ k < l + 2 + test.conditionLabels ∧ name = labelName k := by
      intro name hname
      rcases List.mem_pair.mp hname with rfl | rfl
      · exact .inl rfl
      · exact .inr ⟨l + 1, le_rfl, by omega, rfl⟩
    have hlabels := (hstart.mono le_rfl (by omega)).append (htest.labelsIn.mono (by omega) le_rfl)
    have hhead : Code.BacksTo (l :: (body.loops (l + 2 + test.conditionLabels)).map Prod.fst)
        ([.label (labelName l)] ++ test.conditionCode places (labelName (l + 1)) (l + 2)) :=
      Code.BacksTo.append (.of_jumpTargets rfl) (test.backsTo_conditionCode (by omega)) hstart
        (htest.jumpsIn (by omega) le_rfl hends) (.inl le_rfl)
    rw [Stmt.code, Stmt.loops, List.map_cons]
    refine Code.BacksTo.append_of (hhead.append
      ((hbody.backsTo_code _).mono (List.subset_cons_self _ _)) hlabels
      (hbodyPart.jumpsIn le_rfl le_rfl (by simp)) (.inl le_rfl)) (.of_jumps_labels [_] rfl rfl) ?_
    -- the jump to the test is the one that goes back
    intro i hi name _ htarget
    rcases List.mem_pair.mp hi with rfl | rfl
    · exact ⟨l, List.mem_cons_self, rfl⟩
    · cases htarget
  | .call _ callee arguments, @Stmt.Shaped.call _ _ _ _ _ formals hcallee harguments =>
    rw [Stmt.code, hcallee]
    exact Code.BacksTo.append_of (backsTo_argumentsCode harguments 0 l) (.of_labels rfl)
      (by simp [Instruction.jumpTarget?])

/-- The code of a list of statements jumps back only to the tests of their loops. -/
lemma backsTo_codeOf {body : List Stmt} (hbody : ∀ s ∈ body, s.Shaped places signature) (l : Nat) :
    Code.BacksTo ((loopsOf body l).map Prod.fst) (codeOf places signature body l) := by
  match body with
  | [] => exact .of_labels rfl
  | s :: rest =>
    obtain ⟨hs, hrest⟩ := List.forall_mem_cons.mp hbody
    rw [codeOf, loopsOf, List.map_append]
    exact ((hs.backsTo_code l).mono (List.subset_append_left _ _)).append_links
      ((backsTo_codeOf hrest _).mono (List.subset_append_right _ _)) (hs.links_code l)
      (links_codeOf hrest _)

end

end

end TreeCompiler
