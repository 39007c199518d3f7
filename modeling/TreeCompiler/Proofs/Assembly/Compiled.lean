import TreeCompiler.Proofs.Assembly.Decoding
import TreeCompiler.Proofs.Emission.Symbols
import TreeCompiler.Proofs.Order.Shifted

/-!
# Reading the assembly file of a program

The symbols in the code of a program are those of the runtime library, the names of its procedures
and the labels that are made up (`Program.Compilable.name_mem_symbols`).  So the assembly file of a
program whose procedures are called by ASCII letters, digits and underscores can be read back
(`compile_decodes`).
-/

namespace TreeCompiler

/-- A label that is made up is a name. -/
lemma isSymbol_labelName (l : Nat) : IsSymbol (labelName l) := by
  have htext : (labelName l).toList = 'L' :: Nat.toDigits 10 l := by
    rw [toList_labelName, Nat.toString_eq_repr, Nat.toList_repr]
  rw [IsSymbol, htext]
  refine ⟨List.cons_ne_nil _ _, fun c hc => ?_⟩
  rcases List.mem_cons.mp hc with rfl | hdigit
  · exact .inl rfl
  · exact .inl (isAlphanum_of_mem_decimal hdigit)

/-- The symbols of a program are names if its procedures are called by names. -/
lemma Program.isSymbol_of_mem_symbols {p : Program}
    (hnames : ∀ q ∈ p.procedures, IsSymbol q.name) : ∀ name ∈ p.symbols, IsSymbol name := by
  intro name hname
  have himports : ∀ name ∈ runtimeProcedures.map RuntimeProcedure.name ++ [indexErrorLabel],
      IsSymbol name := by
    decide
  rcases List.mem_append.mp hname with himport | hown
  · exact himports name himport
  rcases List.mem_append.mp hown with hprocedure | hlabel
  · obtain ⟨q, hq, rfl⟩ := List.mem_map.mp hprocedure
    exact hnames q hq
  · obtain ⟨l, -, rfl⟩ := List.mem_map.mp hlabel
    exact isSymbol_labelName l

/-- What the code of a list of procedures exports is the name of one of them. -/
lemma exports_mem_proceduresCode {names : List (String × ValueShape)}
    {signature : String → Option (List Formal)} {qs : List Procedure} {l : Nat} {name : String}
    (h : .exports name ∈ proceduresCode names signature qs l) : name ∈ qs.map Procedure.name := by
  induction qs generalizing l with
  | nil => cases h
  | cons q rest ih =>
    obtain ⟨lines, hlines, hexports⟩ := q.code_eq_exports names signature (l := l)
    rw [proceduresCode, hlines, List.mem_append, List.mem_cons] at h
    rcases h with (heq | hmem) | hrest
    · cases heq
      exact List.mem_cons_self
    · cases hexports _ hmem
    · exact List.mem_cons_of_mem _ (ih hrest)

/-- A symbol in the code of a program is one of the program's symbols. -/
lemma Program.Compilable.name_mem_symbols {p : Program} (h : p.Compilable) {i : Instruction}
    (hi : i ∈ p.code) {name : String} (hname : i.name? = some name) : name ∈ p.symbols := by
  have hlinks := h.links_code
  have hsymbol : i.symbol? = some name → name ∈ p.symbols := fun hs =>
    hlinks.symbols.subset (List.mem_filterMap.mpr ⟨i, hi, hs⟩)
  have htarget : i.jumpTarget? = some name → name ∈ p.symbols := fun ht => by
    simpa using hlinks.targets (List.mem_filterMap.mpr ⟨i, hi, ht⟩)
  have hcallee : i.callee? = some name → name ∈ p.symbols := fun hc =>
    h.callees_subset (List.mem_filterMap.mpr ⟨i, hi, hc⟩)
  cases i with
  | imports | label => exact hsymbol hname
  | branch | jump => exact htarget hname
  | call => exact hcallee hname
  | exports =>
    cases hname
    have hhead : ∀ i ∈ headCode, i.isExport = false := by decide
    have hprocedures : .exports name ∈ proceduresCode p.typeNames p.signature p.procedures 0 :=
      (List.mem_append.mp hi).resolve_left fun hmem => Bool.noConfusion (hhead _ hmem)
    exact List.mem_append_right _ (List.mem_append_left _ (exports_mem_proceduresCode hprocedures))
  | _ => cases hname

/-- The assembly file of a program whose procedures are called by names can be read back. -/
theorem compile_decodes (definitions : List Definition) (c : Compilation) (a : Assembly)
    (h : compile (Program.ofDefinitions definitions) .codegen = .ok c) (ha : c.assembly = some a)
    (hnames : ∀ q ∈ (Program.ofDefinitions definitions).procedures, IsSymbol q.name) :
    Assembly.decode a.text = some a.code := by
  obtain ⟨hcompilable, hcode⟩ := compile_compilable h
  rw [ha] at hcode
  cases hcode
  refine Assembly.decode_eq_some_iff.mpr ⟨fun i hi name hname => ?_, rfl⟩
  exact Program.isSymbol_of_mem_symbols hnames name (hcompilable.name_mem_symbols hi hname)

end TreeCompiler
