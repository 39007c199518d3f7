import TreeCompiler.Proofs.Emission.Jumps
import TreeCompiler.Proofs.Emission.Shaped
import TreeCompiler.Proofs.Order.Shifted

/-!
# Control flow in a procedure

Control goes from a line of code to the next one, or to the label that the line names
(`Code.Flows`).  In the code of a procedure, all labels behind the procedure's own are made up for
it, from the number that the procedures before it have left: each number is used once, and each
label is jumped to.  Control goes back only from the end of a loop to its test, so that it cannot
come back to a line without the test of a loop on the way (`compile_localLabels`).
-/

namespace TreeCompiler

/-! ### Flow -/

/-- Whether control may go on from a line to the next one; a call is taken to come back. -/
def Instruction.goesOn : Instruction → Bool
  | .jump _ | .jumpRegister _ => false
  | _ => true

/-- Control may go from one line of code to another one: to the next line, or to the label that is
named. -/
inductive Code.Flows (code : Code) : Nat → Nat → Prop
  | next {k : Nat} {i : Instruction} : code[k]? = some i → i.goesOn = true → k + 1 < code.length →
      Code.Flows code k (k + 1)
  | jump {k m : Nat} {i : Instruction} {name : String} : code[k]? = some i →
      i.jumpTarget? = some name → code[m]? = some (.label name) → Code.Flows code k m

section
variable {code : Code} {tests : List Nat}

/-- Control goes back only to the test of a loop, by a jump. -/
lemma Code.BacksTo.of_flows (h : code.BacksTo tests) {k m : Nat} (hflows : code.Flows k m)
    (hle : m ≤ k) : ∃ n ∈ tests, code[k]? = some (.jump (labelName n)) ∧
      code[m]? = some (.label (labelName n)) := by
  cases hflows with
  | next _ _ _ => omega
  | jump hi hname hlabel =>
    obtain ⟨n, hn, rfl⟩ := h _ ⟨m, k, _, hle, hlabel, hi, hname⟩
    cases hname
    exact ⟨n, hn, hi, hlabel⟩

/-- Control cannot come back to a line without the test of a loop on the way. -/
lemma Code.BacksTo.exists_test (h : code.BacksTo tests) {k : Nat} {path : List Nat}
    (hpath : (k :: (path ++ [k])).IsChain code.Flows) :
    ∃ m ∈ k :: path, ∃ n ∈ tests, code[m]? = some (.label (labelName n)) := by
  have hsteps : ∀ a b, code.Flows a b →
      a < b ∨ ∃ n ∈ tests, code[b]? = some (.label (labelName n)) := by
    intro a b hflows
    rcases Nat.lt_or_ge a b with hlt | hle
    · exact .inl hlt
    · obtain ⟨n, hn, -, hlabel⟩ := h.of_flows hflows hle
      exact .inr ⟨n, hn, hlabel⟩
  obtain ⟨m, hm, htest⟩ := exists_mem_of_isChain hsteps hpath le_rfl
  rw [List.mem_append, List.mem_singleton] at hm
  exact ⟨m, List.mem_cons.mpr hm.symm, htest⟩

end

/-! ### Procedures -/

/-- The labels and the jumps in the code of a procedure behind its name.  The labels are made up,
with the numbers in a range, each of them once; jumps go to these labels and to the index error,
and each label is jumped to.  Control goes back only by jumps to the labels in front of the tests
of loops, and every cycle has such a label in it. -/
structure Code.LocalLabels (places : List (String × Place)) (first next : Nat) (tests : List Expr)
    (code : Code) (loops : List (Nat × Expr)) : Prop where
  nodup : code.labels.Nodup
  mem_labels : ∀ name, name ∈ code.labels ↔ ∃ n, first ≤ n ∧ n < next ∧ name = labelName n
  targets : ∀ name ∈ jumpTargets code, name = indexErrorLabel ∨ name ∈ code.labels
  used : ∀ name ∈ code.labels, name ∈ jumpTargets code
  tests : loops.map Prod.snd = tests
  heads : ∀ loop ∈ loops, loopHead places loop <:+: code
  back : ∀ k m, code.Flows k m → m ≤ k → ∃ loop ∈ loops,
    code[k]? = some (.jump (labelName loop.1)) ∧ code[m]? = some (.label (labelName loop.1))
  cycles : ∀ k path, (k :: (path ++ [k])).IsChain code.Flows →
    ∃ m ∈ k :: path, ∃ loop ∈ loops, code[m]? = some (.label (labelName loop.1))

section
variable {places : List (String × Place)} {signature : String → Option (List Formal)}
  {names : List (String × ValueShape)} {body : List Stmt} {q : Procedure}

/-- The code of statements imports nothing. -/
lemma imports_not_mem_codeOf (hbody : ∀ s ∈ body, s.Shaped places signature) (l : Nat)
    (name : String) : .imports name ∉ codeOf places signature body l := by
  intro hmem
  -- code with other labels would have the same import, but it has no symbols in common
  have hshifted : Shifted (labelsOf body) (codeOf places signature body l)
      (codeOf places signature body (l + labelsOf body)) := codeOf_shifted body (Nat.cast_add _ _)
  obtain ⟨i, hmem', hi⟩ := exists_of_forall₂ hshifted hmem
  have hsymbol : ∀ {l : Nat}, .imports name ∈ codeOf places signature body l →
      ∃ k, l ≤ k ∧ k < l + labelsOf body ∧ name = labelName k := fun hmem =>
    mem_labelsFrom.mp ((links_codeOf hbody _).symbols.subset (List.mem_filterMap.mpr ⟨_, hmem, rfl⟩))
  cases hi with
  | same _ =>
    obtain ⟨k, -, hlt, rfl⟩ := hsymbol hmem
    obtain ⟨k', hle, -, heq⟩ := hsymbol hmem'
    have hsame := labelName_injective heq
    omega

/-- The labels of statements are made up, each of them once. -/
lemma perm_labels_codeOf (hbody : ∀ s ∈ body, s.Shaped places signature) (l : Nat) :
    (Code.labels (codeOf places signature body l)).Perm (labelsFrom l (labelsOf body)) := by
  have hlabels : Code.labels (codeOf places signature body l) =
      symbols (codeOf places signature body l) := by
    refine List.filterMap_congr fun i hi => ?_
    cases i with
    | imports name => exact absurd hi (imports_not_mem_codeOf hbody l name)
    | _ => rfl
  rw [hlabels]
  exact (links_codeOf hbody l).symbols

/-- The labels and the jumps of statements are local, and more code around them without labels and
jumps does not change this. -/
lemma localLabels_codeOf (hbody : ∀ s ∈ body, s.Shaped places signature) (l : Nat)
    {before after : Code} (hbefore : before.labels = [] ∧ jumpTargets before = [])
    (hafter : after.labels = [] ∧ jumpTargets after = []) :
    Code.LocalLabels places l (l + labelsOf body) (loopTestsOf body)
      (before ++ codeOf places signature body l ++ after) (loopsOf body l) := by
  have hlabels : Code.labels (before ++ codeOf places signature body l ++ after) =
      Code.labels (codeOf places signature body l) := by
    rw [Code.labels_append, Code.labels_append, hbefore.1, hafter.1, List.nil_append, List.append_nil]
  have htargets : jumpTargets (before ++ codeOf places signature body l ++ after) =
      jumpTargets (codeOf places signature body l) := by
    rw [jumpTargets_append, jumpTargets_append, hbefore.2, hafter.2, List.nil_append, List.append_nil]
  have hperm := perm_labels_codeOf hbody l
  have hback : Code.BacksTo ((loopsOf body l).map Prod.fst)
      (before ++ codeOf places signature body l ++ after) := by
    refine Code.BacksTo.append_of (Code.BacksTo.append_of (.of_labels hbefore.1)
      (backsTo_codeOf hbody l) ?_) (.of_labels hafter.1) fun i hi name _ htarget => ?_
    · simp [hbefore.1]
    · have hmem := mem_jumpTargets.mpr ⟨i, hi, htarget⟩
      simp [hafter.2] at hmem
  refine ⟨?nodup, ?mem_labels, ?targets, ?used, map_snd_loopsOf body l, ?heads, ?back, ?cycles⟩
  case nodup =>
    rw [hlabels]
    exact hperm.nodup_iff.mpr nodup_labelsFrom
  case mem_labels =>
    intro name
    rw [hlabels, hperm.mem_iff, mem_labelsFrom]
  case targets =>
    intro name hname
    rw [htargets] at hname
    rw [hlabels, hperm.mem_iff]
    rcases List.mem_append.mp ((links_codeOf hbody l).targets hname) with hmem | hmem
    · exact .inr hmem
    · exact .inl (List.mem_singleton.mp hmem)
  case used =>
    intro name hname
    rw [hlabels, hperm.mem_iff] at hname
    rw [htargets]
    exact labelsFrom_subset_codeOf hbody l hname
  case heads =>
    intro loop hloop
    exact (loopHead_infix_codeOf body l loop hloop).trans (List.infix_append _ _ _)
  case back =>
    intro k m hflows hle
    obtain ⟨n, hn, hjump, hlabel⟩ := hback.of_flows hflows hle
    obtain ⟨loop, hloop, rfl⟩ := List.mem_map.mp hn
    exact ⟨loop, hloop, hjump, hlabel⟩
  case cycles =>
    intro k path hpath
    obtain ⟨m, hm, n, hn, hlabel⟩ := hback.exists_test hpath
    obtain ⟨loop, hloop, rfl⟩ := List.mem_map.mp hn
    exact ⟨m, hm, loop, hloop, hlabel⟩

/-- The labels and the jumps in the code of a procedure are local. -/
lemma Procedure.exists_localLabels {q : Procedure} {names : List (String × ValueShape)}
    (hbody : ∀ s ∈ q.body, s.Shaped (q.places names) signature) (l : Nat) :
    ∃ inner, q.code names signature l = .exports q.name :: .label q.name :: inner ∧
      Code.LocalLabels (q.places names) l (l + labelsOf q.body) (loopTestsOf q.body) inner
        (loopsOf q.body l) := by
  have henter : ∀ frame oldFramePointer oldReturnAddress savesReturn,
      Code.labels (enterCode frame oldFramePointer oldReturnAddress savesReturn) = [] ∧
        jumpTargets (enterCode frame oldFramePointer oldReturnAddress savesReturn) = [] := by
    intro _ _ _ savesReturn
    cases savesReturn <;> exact ⟨rfl, rfl⟩
  have hleave : ∀ frame oldFramePointer oldReturnAddress savesReturn,
      Code.labels (leaveCode frame oldFramePointer oldReturnAddress savesReturn) = [] ∧
        jumpTargets (leaveCode frame oldFramePointer oldReturnAddress savesReturn) = [] := by
    intro _ _ _ savesReturn
    cases savesReturn <;> exact ⟨rfl, rfl⟩
  exact ⟨_, rfl, localLabels_codeOf hbody l (henter _ _ _ _) (hleave _ _ _ _)⟩

end

/-- Code that is emitted for a program is emitted for each of its procedures, after that of the
procedures before it. -/
lemma Program.Ready.exists_emit_procedure {p : Program} {t : Tables} {types : Annotations}
    (h : p.Ready t types) (hregisters : p.need ≤ bankSize) {before after : List Procedure}
    {q : Procedure} (hq : p.procedures = before ++ q :: after) :
    ∃ codeBefore start stop,
      (emitProcedures t types before).run .start = .ok (codeBefore, start) ∧
      (q.emit t types).run start = .ok (q.code p.typeNames p.signature start.nextLabel, stop) ∧
      start.nextLabel = (before.map fun r => labelsOf r.body).sum ∧
      stop.nextLabel = start.nextLabel + labelsOf q.body := by
  have hnone : firstOverflow? p.demands = none := firstOverflow?_eq_none (p.need_eq ▸ hregisters)
  unfold Program.demands at hnone
  rw [hq, List.flatMap_append, List.flatMap_cons, firstOverflow?_append, firstOverflow?_append,
    Option.or_eq_none_iff, Option.or_eq_none_iff] at hnone
  obtain ⟨hnoneBefore, hnoneBody, -⟩ := hnone
  have hsubset : before ⊆ p.procedures := by
    rw [hq]
    exact List.subset_append_left _ _
  have hmem : q ∈ p.procedures := by
    rw [hq]
    exact List.mem_append_right _ List.mem_cons_self
  have hbefore : Runs (emitProcedures t types before) (.at 0 0 0) _ _ := h.emit_procedures hsubset
  obtain ⟨codeBefore, start, hrun, -, rfl, -⟩ := hbefore.exists_ok fun e he => by
    rw [hnoneBefore] at he
    cases he
  obtain ⟨code, stop, hrunProcedure, rfl, rfl, -⟩ :=
    (h.emit_procedure hmem).exists_ok fun e he => by
      rw [hnoneBody] at he
      cases he
  exact ⟨codeBefore, _, _, hrun, hrunProcedure, Nat.zero_add _, rfl⟩

/-- The labels that are made up for a procedure are local to it.  Let `start` and `stop` be the
cursors before and after the procedure is emitted.  Behind the procedure's own label, the labels
in its code are those with the numbers that are taken in between, each of them once.  Jumps go to
these labels and to the index error, and each label is jumped to.  Control goes back only by the
jumps to the labels in front of the tests of loops, and every cycle has such a label in it. -/
theorem compile_localLabels (definitions : List Definition) (c : Compilation)
    (before after : List Procedure) (q : Procedure)
    (h : compile (Program.ofDefinitions definitions) .codegen = .ok c)
    (hq : (Program.ofDefinitions definitions).procedures = before ++ q :: after) :
    ∃ assembly types codeBefore start inner stop loops,
      c.assembly = some assembly ∧ c.annotations = some types ∧
      (emitProcedures c.tables types before).run .start = .ok (codeBefore, start) ∧
      (q.emit c.tables types).run start =
        .ok (.exports q.name :: .label q.name :: inner, stop) ∧
      segment q.name assembly.code = .exports q.name :: .label q.name :: inner ∧
      Code.LocalLabels (q.places (Program.ofDefinitions definitions).typeNames) start.nextLabel
        stop.nextLabel (loopTestsOf q.body) inner loops := by
  obtain ⟨declared, types, allocated, assembly, hdeclared, hchecked, hallocated, hemitted, rfl⟩ :=
    compile_eq_ok.mp h
  have hready := Program.ready hdeclared hchecked hallocated
  obtain ⟨hassembly, hregisters, -⟩ := compile_code h
  cases hassembly
  have hcompilable := hready.compilable hregisters
  obtain ⟨codeBefore, start, stop, hrun, hrunProcedure, hstart, hstop⟩ :=
    hready.exists_emit_procedure hregisters hq
  have hmem : q ∈ (Program.ofDefinitions definitions).procedures := by
    rw [hq]
    exact List.mem_append_right _ List.mem_cons_self
  obtain ⟨inner, hinner, hlocal⟩ :=
    q.exists_localLabels (hcompilable.shaped q hmem) start.nextLabel
  have hsegment := Program.segment_code (List.nodup_append.mp hcompilable.names).2.1 hq
  rw [hinner] at hrunProcedure
  rw [← hstart, hinner] at hsegment
  rw [← hstop] at hlocal
  exact ⟨_, types, codeBefore, start, inner, stop, _, rfl, rfl, hrun, hrunProcedure, hsegment, hlocal⟩

/-- The labels of the procedure that counts down start with the first one, and it has one loop. -/
theorem compile_localLabels_countdown : ∃ q after c assembly inner stop loop,
    (Program.ofDefinitions countdown).procedures = q :: after ∧ q.name = "count" ∧
    compile (Program.ofDefinitions countdown) .codegen = .ok c ∧ c.assembly = some assembly ∧
    segment "count" assembly.code = .exports "count" :: .label "count" :: inner ∧
    Code.LocalLabels (q.places []) 0 stop (loopTestsOf q.body) inner [loop] := by
  obtain ⟨c, hc⟩ := exists_countdown_compiled
  obtain ⟨assembly, types, codeBefore, start, inner, stop, loops, hassembly, -, hrun, -, hsegment,
    hlocal⟩ := compile_localLabels countdown c [] _ _ hc rfl
  cases hrun
  obtain ⟨loop, rfl⟩ : ∃ loop, loops = [loop] := by
    rw [← List.length_eq_one_iff, ← List.length_map Prod.snd, hlocal.tests]
    rfl
  exact ⟨_, _, c, assembly, inner, _, loop, rfl, rfl, hc, hassembly, hsegment, hlocal⟩

end TreeCompiler
