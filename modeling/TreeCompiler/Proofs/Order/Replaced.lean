import TreeCompiler.Proofs.Order.Rearranged

/-!
# A procedure with another body

Procedures are compiled apart from each other.  What the other procedures of a program are given does
not depend on the body of a procedure, since neither the names of the types nor the signatures of the
procedures do (`Program.signature_replaced`).  The only trace that the body leaves is in the numbers of
the labels that are made up after it (`compile_replaced`).
-/

namespace TreeCompiler

section
variable (before after : List Definition) (q : Procedure) (body : List Stmt)

/-- The procedures of a program around one of them. -/
lemma Program.procedures_around : (Program.mk (before ++ .procedure q :: after)).procedures =
    (Program.mk before).procedures ++ q :: (Program.mk after).procedures := by
  unfold procedures
  rw [List.filterMap_append]
  rfl

/-- The types of a program do not depend on a procedure. -/
lemma Program.typeDefs_around : (Program.mk (before ++ .procedure q :: after)).typeDefs =
    (Program.mk before).typeDefs ++ (Program.mk after).typeDefs := by
  unfold typeDefs
  rw [List.filterMap_append]
  rfl

/-- The names of types do not depend on the body of a procedure. -/
lemma Program.typeNames_replaced :
    (Program.mk (before ++ .procedure { q with body } :: after)).typeNames =
      (Program.mk (before ++ .procedure q :: after)).typeNames := by
  unfold typeNames
  rw [typeDefs_around, typeDefs_around]

/-- The signatures of procedures do not depend on the body of one. -/
lemma Program.signature_replaced :
    (Program.mk (before ++ .procedure { q with body } :: after)).signature =
      (Program.mk (before ++ .procedure q :: after)).signature := by
  funext name
  unfold signature
  rw [typeNames_replaced, procedures_around, procedures_around, List.find?_append, List.find?_append]
  cases (Program.mk before).procedures.find? (·.name == name) with
  | some r => rfl
  | none =>
    rw [Option.none_or, Option.none_or]
    by_cases hname : (q.name == name) = true
    · rw [List.find?_cons_of_pos (by exact hname), List.find?_cons_of_pos (by exact hname)]
      rfl
    · rw [List.find?_cons_of_neg (by exact hname), List.find?_cons_of_neg (by exact hname)]

/-- The procedures beside one of them are procedures of the program. -/
lemma Program.mem_procedures_around {r : Procedure}
    (hr : r ∈ (Program.mk (before ++ after)).procedures) :
    r ∈ (Program.mk (before ++ .procedure q :: after)).procedures := by
  have hsplit : (Program.mk (before ++ after)).procedures =
      (Program.mk before).procedures ++ (Program.mk after).procedures := by
    unfold procedures
    rw [List.filterMap_append]
  rw [hsplit, List.mem_append] at hr
  rw [procedures_around, List.mem_append, List.mem_cons]
  exact hr.imp_right Or.inr

end

/-- Procedures are compiled apart from each other.  Two programs that differ in the body of one procedure
give every other procedure the same frame, and the same code up to the labels that are made up.  The
numbers of these are the same in the procedures before the one that differs.  In those behind it they
are shifted by a constant, by which the one body takes more labels than the other. -/
theorem compile_replaced (before after : List Definition) (q : Procedure) (body : List Stmt)
    (c c' : Compilation)
    (hc : compile (Program.ofDefinitions (before ++ .procedure q :: after)) .codegen = .ok c)
    (hc' : compile (Program.ofDefinitions (before ++ .procedure { q with body } :: after)) .codegen =
      .ok c') :
    ∃ assembly assembly', c.assembly = some assembly ∧ c'.assembly = some assembly' ∧
      (∀ r ∈ (Program.mk (before ++ after)).procedures, r.SameFrame c.tables c'.tables) ∧
      (∀ r ∈ (Program.mk before).procedures, r.ShiftedCode 0 assembly.code assembly'.code) ∧
      ∀ r ∈ (Program.mk after).procedures,
        r.ShiftedCode ((labelsOf body : Int) - labelsOf q.body) assembly.code assembly'.code := by
  obtain ⟨hassembly, -, types, hready⟩ := compile_code hc
  obtain ⟨hassembly', -, types', hready'⟩ := compile_code hc'
  have htypeNames : (Program.ofDefinitions (before ++ .procedure { q with body } :: after)).typeNames =
      (Program.ofDefinitions (before ++ .procedure q :: after)).typeNames := by
    rw [Program.typeNames_ofDefinitions, Program.typeNames_ofDefinitions, Program.typeNames_replaced]
  have hsignature : (Program.ofDefinitions (before ++ .procedure { q with body } :: after)).signature =
      (Program.ofDefinitions (before ++ .procedure q :: after)).signature := by
    rw [Program.signature_ofDefinitions, Program.signature_ofDefinitions, Program.signature_replaced]
  have hprocedures := Program.procedures_around before after q
  have hprocedures' := Program.procedures_around before after { q with body }
  refine ⟨_, _, hassembly, hassembly', fun r hr => ?frames, fun r hr => ?ahead, fun r hr => ?behind⟩
  case frames =>
    obtain ⟨e, he⟩ := hready.exists_framed (Program.mem_procedures_around before after q hr)
    obtain ⟨e', he'⟩ :=
      hready'.exists_framed (Program.mem_procedures_around before after { q with body } hr)
    rw [htypeNames, hsignature] at he'
    exact he.sameFrame he'
  case ahead =>
    obtain ⟨first, rest, hsplit⟩ := List.append_of_mem hr
    rw [hsplit, List.append_assoc] at hprocedures hprocedures'
    have hcode := hready.segment_code hprocedures
    have hcode' := hready'.segment_code hprocedures'
    rw [htypeNames, hsignature] at hcode'
    exact r.shiftedCode _ _ hcode hcode' (add_zero _).symm
  case behind =>
    obtain ⟨first, rest, hsplit⟩ := List.append_of_mem hr
    rw [hsplit, ← List.cons_append, ← List.append_assoc] at hprocedures hprocedures'
    have hcode := hready.segment_code hprocedures
    have hcode' := hready'.segment_code hprocedures'
    rw [htypeNames, hsignature] at hcode'
    refine r.shiftedCode _ _ hcode hcode' ?_
    -- the labels before `r` are those of the same procedures, but for the body that differs
    simp only [List.map_append, List.map_cons, List.sum_append, List.sum_cons]
    omega

/-- A procedure that does nothing. -/
def idle : Procedure := ⟨.atLine 12, "idle", [], [], []⟩

/-- A procedure that stands between those of the counting program can be given a body with a label.  The
numbers of the labels in the loop behind it are larger by one then. -/
theorem compile_replaced_idle : ∃ c c' assembly assembly',
    compile (Program.ofDefinitions (countdown.drop 1 ++ .procedure idle :: countdown.take 1))
      .codegen = .ok c ∧
    compile (Program.ofDefinitions (countdown.drop 1 ++
      .procedure { idle with body := [.ifThen (.atLine 13) (.bool (.atLine 13) true)
        (.empty (.atLine 13))] } :: countdown.take 1)) .codegen = .ok c' ∧
    c.assembly = some assembly ∧ c'.assembly = some assembly' ∧
    (∀ r ∈ (Program.mk (countdown.drop 1 ++ countdown.take 1)).procedures,
      r.SameFrame c.tables c'.tables) ∧
    (∀ r ∈ (Program.mk (countdown.drop 1)).procedures,
      r.ShiftedCode 0 assembly.code assembly'.code) ∧
    ∀ r ∈ (Program.mk (countdown.take 1)).procedures,
      r.ShiftedCode 1 assembly.code assembly'.code := by
  have hok : (compile (Program.ofDefinitions (countdown.drop 1 ++ .procedure idle :: countdown.take 1))
      .codegen).isOk = true := by
    decide +kernel
  have hok' : (compile (Program.ofDefinitions (countdown.drop 1 ++
      .procedure { idle with body := [.ifThen (.atLine 13) (.bool (.atLine 13) true)
        (.empty (.atLine 13))] } :: countdown.take 1)) .codegen).isOk = true := by
    decide +kernel
  obtain ⟨c, hc⟩ := exists_ok_of_isOk hok
  obtain ⟨c', hc'⟩ := exists_ok_of_isOk hok'
  obtain ⟨assembly, assembly', hassembly, hassembly', hframes, hbefore, hbehind⟩ :=
    compile_replaced _ _ idle _ c c' hc hc'
  exact ⟨c, c', assembly, assembly', hc, hc', hassembly, hassembly', hframes, hbefore, hbehind⟩

end TreeCompiler
