import TreeCompiler.Proofs.Locals.Declared
import TreeCompiler.Proofs.Locals.Frames

/-!
# Compiling a program under other names

What the variables of a procedure are called does not matter.  If a program is compiled, so is the
program in which the variables of one procedure have other names, as long as these are not taken
(`compile_renamed`).  Each of the passes on the one program mirrors the pass on the other one; the
scope of the procedure is found in the tables in which the program is declared, and the other
procedures have other scopes (`Program.rewritten`).
-/

namespace TreeCompiler

variable {before after : List Definition} {q : Procedure} {ρ : String → String} {t : Tables}
  {e : ProcedureEntry}

/-- Nothing but the names of the variables of one procedure is different. -/
lemma Program.rewritten (hbelong : t.BelongTo ⟨before ++ .procedure q :: after⟩) (hq : q.Renamable ρ)
    (he : t.binding? .global q.name = some (.procedure e)) :
    List.Forall₂
      (Procedure.Rewritten (Program.mk (before ++ .procedure q :: after)).typeNames e.scope ρ t)
      (Program.mk (before ++ .procedure q :: after)).procedures
      (Program.mk (before ++ .procedure (q.rename ρ) :: after)).procedures := by
  have hdeclared := hbelong.declared
  have hnames := (List.nodup_append.mp hbelong.nodup).2.1
  rw [procedures_around] at hdeclared hnames ⊢
  rw [procedures_around]
  rw [List.map_append, List.map_cons, List.nodup_append] at hnames
  obtain ⟨-, hbehind, hahead⟩ := hnames
  rw [List.nodup_cons] at hbehind
  generalize (Program.mk (before ++ .procedure q :: after)).typeNames = names at hdeclared ⊢
  have hsame : ∀ r : Procedure, (∃ d, t.Declares names r d) → r.name ≠ q.name →
      r.Rewritten names e.scope ρ t r := by
    rintro r ⟨d, hd⟩ hne
    have hscope : d.scope ≠ e.scope := fun heq => hne (hbelong.separate _ _ _ _ hd.bound he heq)
    refine ⟨d, hd, ?_, fun hown => absurd hown hscope⟩
    rw [writtenIn, if_neg hscope, r.rename_id]
  refine List.rel_append (List.forall₂_same.mpr fun r hr => ?_)
    (.cons ?_ (List.forall₂_same.mpr fun r hr => ?_))
  · exact hsame r (hdeclared r (List.mem_append_left _ hr)) fun heq =>
      hahead _ (List.mem_map_of_mem hr) _ List.mem_cons_self heq
  · obtain ⟨d, hd⟩ := hdeclared q (List.mem_append_right _ List.mem_cons_self)
    have hbound := hd.bound
    rw [he] at hbound
    cases hbound
    exact ⟨e, hd, by rw [writtenIn, if_pos rfl], fun _ => hq⟩
  · exact hsame r (hdeclared r (List.mem_append_right _ (List.mem_cons_of_mem _ hr))) fun heq =>
      hbehind.1 (heq ▸ List.mem_map_of_mem hr)

/-- The names of local variables do not matter.  If a program is compiled, so is the program in
which the parameters and the local variables of a procedure have other names, which are different,
not that of the main procedure, and not those of types and procedures that the procedure
uses.  The nodes have the same types, the code is the same, and so are the tables, with all types,
layouts and offsets, but for the names in the scope of the procedure. -/
theorem compile_renamed (before after : List Definition) (q : Procedure) (ρ : String → String)
    (c : Compilation) (hq : q.Renamable ρ)
    (hc : compile ⟨before ++ .procedure q :: after⟩ .codegen = .ok c) :
    ∃ e, c.tables.procedure? q.name = some e ∧
      compile ⟨before ++ .procedure (q.rename ρ) :: after⟩ .codegen =
        .ok { c with tables := c.tables.renameIn e.scope ρ } := by
  obtain ⟨declared, types, allocated, assembly, hdeclared, hchecked, hallocated, hemitted, rfl⟩ :=
    compile_eq_ok.mp hc
  obtain ⟨d, hd, hdeclared'⟩ := Program.declare_rename hq hdeclared
  have hbelong := (Program.declare_belongTo _).of_ok hdeclared
  have hinside := (hbelong.inside _ _ hd).1
  have hrewritten := Program.rewritten hbelong hq hd
  obtain ⟨herase, hlaidOut⟩ := Program.laidOut_of_allocate hbelong hallocated
  obtain ⟨e, he, hsame⟩ := Tables.binding?_procedure_of_erase herase hd
  have hscope := ProcedureEntry.scope_eq_of_erase hsame
  refine ⟨e, Tables.procedure?_eq_some.mpr he, ?_⟩
  rw [hscope]
  exact compile_eq_ok.mpr ⟨declared.renameIn d.scope ρ, types, allocated.renameIn d.scope ρ, assembly,
    hdeclared', Program.check_renameIn hbelong hinside hrewritten hchecked,
    Program.allocate_renameIn hinside hrewritten hallocated,
    Program.emit_renameIn hlaidOut.belongTo hinside
      (hrewritten.imp fun _ _ hr => hr.of_erase herase.symm) hemitted, rfl⟩

/-- The procedure of the counting program that counts. -/
def counter : Procedure := (Program.ofDefinitions countdown).procedures.headI

/-- The variable that the counting program counts down can be called like the procedure that
counts. -/
theorem compile_renamed_countdown : ∃ c e,
    compile (Program.ofDefinitions countdown) .codegen = .ok c ∧
    c.tables.procedure? "count" = some e ∧
    compile ⟨.procedure (counter.rename fun _ => "count") ::
      (Program.ofDefinitions countdown).definitions.tail⟩ .codegen =
        .ok { c with tables := c.tables.renameIn e.scope fun _ => "count" } := by
  have hsplit : Program.ofDefinitions countdown =
      ⟨[] ++ .procedure counter :: (Program.ofDefinitions countdown).definitions.tail⟩ := rfl
  have hrenamable : counter.Renamable fun _ => "count" :=
    ⟨by decide +kernel, by decide +kernel, by decide +kernel, by decide +kernel⟩
  obtain ⟨c, hc⟩ := exists_countdown_compiled
  rw [hsplit] at hc
  obtain ⟨e, he, hrenamed⟩ := compile_renamed [] _ counter _ c hrenamable hc
  exact ⟨c, e, hc, he, hrenamed⟩

end TreeCompiler
