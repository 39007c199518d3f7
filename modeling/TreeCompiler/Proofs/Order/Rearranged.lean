import TreeCompiler.Proofs.Frame.Framed
import TreeCompiler.Proofs.Order.Acceptance
import TreeCompiler.Proofs.Order.Shifted

/-!
# Definitions in another order

Procedures can stand anywhere among the definitions of a program, since only types have to be defined
before they are used.  Two lists of definitions with the same types in the same order, and the same
procedures in any order, are `Rearranged`; the programs that are built from them agree
(`Rearranged.agrees`), so that one of them is accepted if the other one is.  Every procedure has the
same frame in both, and the same code up to the numbers of labels (`compile_rearranged`).
-/

namespace TreeCompiler

/-- Two lists of definitions have the same types in the same order, and the same procedures in some
order. -/
structure Rearranged (l l' : List Definition) : Prop where
  types : (Program.mk l').typeDefs = (Program.mk l).typeDefs
  procedures : (Program.mk l').procedures.Perm (Program.mk l).procedures

/-- Type definitions that are alike have names from the same places. -/
lemma TypeDef.Alike.typeOriginsFrom_eq {ds ds' : List TypeDef} (h : List.Forall₂ TypeDef.Alike ds ds')
    {origins : List (String × Origin)} : typeOriginsFrom origins ds' = typeOriginsFrom origins ds := by
  induction h generalizing origins with
  | nil => rfl
  | cons hd _ ih =>
    obtain ⟨n, hn⟩ := hd.type
    rw [typeOriginsFrom, typeOriginsFrom, hn, TypeExpr.origin?_number, hd.name]
    split <;> exact ih

/-- The names of types come from where the definitions say. -/
lemma Program.typeOrigins_ofDefinitions (definitions : List Definition) :
    (ofDefinitions definitions).typeOrigins = (Program.mk definitions).typeOrigins :=
  TypeDef.Alike.typeOriginsFrom_eq (typeDefs_ofDefinitions definitions)

/-- A program that is accepted can be declared. -/
lemma Program.declarable_of_accepts {definitions : List Definition} {stage : Stage}
    (h : ∃ c, compile (ofDefinitions definitions) stage = .ok c) :
    (Program.mk definitions).Declarable := by
  obtain ⟨t, hdeclared, -⟩ := accepts_iff.mp h
  exact (declarable_ofDefinitions definitions).mp
    ((declare_ends (ofDefinitions definitions)).of_ok hdeclared).1

namespace Rearranged

variable {l l' : List Definition} (h : Rearranged l l')
include h

/-- Definitions can be rearranged back. -/
lemma symm : Rearranged l' l := ⟨h.types.symm, h.procedures.symm⟩

/-- The names of types stand for the same shapes. -/
lemma typeNames : (Program.mk l').typeNames = (Program.mk l).typeNames := by
  unfold Program.typeNames
  rw [h.types]

/-- Definitions in another order can be declared as well. -/
lemma declarable (hdeclarable : (Program.mk l).Declarable) : (Program.mk l').Declarable := by
  obtain ⟨htypes, hnames, hadmitted⟩ := Program.declarable_iff.mp hdeclarable
  refine Program.declarable_iff.mpr ⟨h.types ▸ htypes, ?_, fun q hq => ?_⟩
  · have hperm : (globalNames (Program.mk l').typeDefs (Program.mk l').procedures).Perm
        (globalNames (Program.mk l).typeDefs (Program.mk l).procedures) := by
      unfold globalNames
      rw [h.types]
      exact (h.procedures.map Procedure.name).append_left _
    exact hperm.nodup_iff.mpr hnames
  · rw [h.typeNames]
    exact hadmitted q (h.procedures.mem_iff.mp hq)

/-- Names of procedures have the same signatures, if they are different. -/
lemma signature (hnames : ((Program.mk l).procedures.map Procedure.name).Nodup) :
    (Program.mk l').signature = (Program.mk l).signature := by
  funext name
  unfold Program.signature
  rw [h.typeNames, find?_eq_of_perm h.procedures hnames]

/-- The procedures of a program are alike to procedures of a program with another order. -/
lemma resembles : (Program.ofDefinitions l).Resembles (Program.ofDefinitions l') := by
  refine ⟨?_, fun q hq => ?_⟩
  · rw [Program.typeOrigins_ofDefinitions, Program.typeOrigins_ofDefinitions]
    unfold Program.typeOrigins
    rw [h.types]
  · obtain ⟨text, htext, n, rfl⟩ :=
      exists_of_forall₂ (Program.procedures_ofDefinitions l).flip hq
    obtain ⟨q', hq', n', rfl⟩ := exists_of_forall₂ (Program.procedures_ofDefinitions l')
      (h.procedures.mem_iff.mpr htext)
    exact ⟨_, hq', text, n, n', rfl, rfl⟩

/-- Programs with another order of their definitions agree, if they can be declared. -/
lemma agrees (hdeclarable : (Program.mk l).Declarable) :
    (Program.ofDefinitions l).Agrees (Program.ofDefinitions l') := by
  have hnames : ((Program.mk l).procedures.map Procedure.name).Nodup :=
    (List.nodup_append.mp (Program.declarable_iff.mp hdeclarable).2.1).2.1
  refine { h.resembles with backward := h.symm.resembles, typeNames := ?_, signature := ?_, need := ?_ }
  · rw [Program.typeNames_ofDefinitions, Program.typeNames_ofDefinitions, h.typeNames]
  · rw [Program.signature_ofDefinitions, Program.signature_ofDefinitions, h.signature hnames]
  · rw [Program.need_ofDefinitions, Program.need_ofDefinitions]
    exact (h.procedures.map _).foldr_op_eq

/-- A program is accepted in whatever order its definitions stand. -/
lemma accepts {stage : Stage} (haccepts : ∃ c, compile (Program.ofDefinitions l) stage = .ok c) :
    ∃ c, compile (Program.ofDefinitions l') stage = .ok c := by
  have hdeclarable := Program.declarable_of_accepts haccepts
  obtain ⟨t, hdeclared, hpasses⟩ := Program.accepts_iff.mp haccepts
  obtain ⟨hlists, g, htraced⟩ := (Program.declare_traced (Program.ofDefinitions l)).of_ok hdeclared
  have hdeclarable' := (Program.declarable_ofDefinitions l').mpr (h.declarable hdeclarable)
  rcases hrun : (Program.ofDefinitions l').declare.runOn .predefined with ⟨r, t'⟩
  cases r with
  | error e =>
    exact absurd hdeclarable' ((Program.declare_ends (Program.ofDefinitions l')).of_error hrun)
  | ok =>
    obtain ⟨hlists', g', htraced'⟩ :=
      (Program.declare_traced (Program.ofDefinitions l')).of_ok hrun
    exact Program.accepts_iff.mpr
      ⟨t', hrun, (h.agrees hdeclarable).passes hlists htraced hlists' htraced' hpasses⟩

end Rearranged

/-! ### Frames and code -/

/-- The frame that the text of a numbered procedure asks for does not depend on the numbers. -/
lemma Procedure.framed_of_number {names : List (String × ValueShape)}
    {signature : String → Option (List Formal)} {q : Procedure} {n : Nat} {t : Tables}
    {e : ProcedureEntry} (h : (q.number n).Framed names signature t e) :
    q.Framed names signature t e := by
  refine ⟨h.entry, ?_, ?_, ?_⟩
  · rw [h.layout]
    unfold frameLayout
    rw [q.length_parameters_number, q.localBytes_number, q.isEmpty_calls_number,
      q.outgoingBytes_number]
  · rw [h.parameters, q.length_parameters_number]
  · have hplaces := h.places
    rw [q.offsets_number] at hplaces
    refine forall₂_comp q.decls_number hplaces ?_
    rintro d d' offset hd ⟨slot, hslot, hoffset⟩
    exact ⟨slot, hd.name ▸ hslot, hoffset⟩

/-- A procedure of the definitions is one of the program, with numbers. -/
lemma Program.exists_number {definitions : List Definition} {q : Procedure}
    (hq : q ∈ (Program.mk definitions).procedures) :
    ∃ n, q.number n ∈ (ofDefinitions definitions).procedures := by
  obtain ⟨_, hmem, n, rfl⟩ := exists_of_forall₂ (procedures_ofDefinitions definitions) hq
  exact ⟨n, hmem⟩

section
variable {definitions : List Definition} {p : Program} {q : Procedure} {t : Tables}
  {types : Annotations}

/-- A procedure of a program that is ready has a frame as its text says. -/
lemma Program.Ready.exists_framed (h : (ofDefinitions definitions).Ready t types)
    (hq : q ∈ (Program.mk definitions).procedures) :
    ∃ e, q.Framed (ofDefinitions definitions).typeNames (ofDefinitions definitions).signature t e := by
  obtain ⟨n, hn⟩ := exists_number hq
  obtain ⟨e, he⟩ := h.laidOut.exists_framed hn
  exact ⟨e, q.framed_of_number he⟩

/-- The code of a procedure is found in that of a program that is ready, with the labels that follow
those of the procedures before it. -/
lemma Program.Ready.segment_code {before after : List Procedure}
    (h : (ofDefinitions definitions).Ready t types)
    (hq : (Program.mk definitions).procedures = before ++ q :: after) :
    segment q.name (ofDefinitions definitions).code =
      q.code (ofDefinitions definitions).typeNames (ofDefinitions definitions).signature
        (before.map fun r => labelsOf r.body).sum := by
  have hnodup := (List.nodup_append.mp h.laidOut.belongTo.nodup).2.1
  rw [map_procedures_ofDefinitions definitions fun _ _ => rfl] at hnodup
  rw [code_ofDefinitions, typeNames_ofDefinitions, signature_ofDefinitions]
  exact Program.segment_code hnodup hq

end

/-- The order of definitions does not matter.  Every stage of the compilation accepts a program in
whatever order its procedures stand among each other and among the types.  The registers that its code
takes are the same, and every procedure has the same frame, and the same code up to the labels that
are made up, whose numbers are shifted by a constant. -/
theorem compile_rearranged (l l' : List Definition) (h : Rearranged l l') :
    (∀ stage, (∃ c, compile (Program.ofDefinitions l) stage = .ok c) ↔
      ∃ c', compile (Program.ofDefinitions l') stage = .ok c') ∧
    ∀ c, compile (Program.ofDefinitions l) .codegen = .ok c →
      ∃ c' assembly assembly', compile (Program.ofDefinitions l') .codegen = .ok c' ∧
        c.assembly = some assembly ∧ c'.assembly = some assembly' ∧
        assembly'.registersUsed = assembly.registersUsed ∧
        ∀ q ∈ (Program.mk l).procedures, q.SameFrame c.tables c'.tables ∧
          q.SameCode assembly.code assembly'.code := by
  refine ⟨fun stage => ⟨h.accepts, h.symm.accepts⟩, fun c hc => ?_⟩
  obtain ⟨c', hc'⟩ := h.accepts ⟨c, hc⟩
  obtain ⟨hassembly, -, types, hready⟩ := compile_code hc
  obtain ⟨hassembly', -, types', hready'⟩ := compile_code hc'
  have hagrees := h.agrees (Program.declarable_of_accepts ⟨c, hc⟩)
  refine ⟨c', _, _, hc', hassembly, hassembly', hagrees.need, fun q hq => ?_⟩
  have hq' := h.procedures.mem_iff.mpr hq
  constructor
  · obtain ⟨e, he⟩ := hready.exists_framed hq
    obtain ⟨e', he'⟩ := hready'.exists_framed hq'
    rw [hagrees.typeNames, hagrees.signature] at he'
    exact he.sameFrame he'
  · obtain ⟨before, after, hsplit⟩ := List.append_of_mem hq
    obtain ⟨before', after', hsplit'⟩ := List.append_of_mem hq'
    have hcode := hready.segment_code hsplit
    have hcode' := hready'.segment_code hsplit'
    rw [hagrees.typeNames, hagrees.signature] at hcode'
    exact ⟨_, q.shiftedCode _ _ hcode hcode' (add_sub_cancel _ _).symm⟩

/-- A type of pairs, which can be defined before and behind the counting program. -/
def pairType : Definition := .type ⟨.atLine 12, "pair", .array (.atLine 12) 2 (.named (.atLine 12) "int")⟩

/-- The counting program can stand behind a type and have its main procedure first. -/
theorem compile_rearranged_countdown : ∃ c c' assembly assembly',
    compile (Program.ofDefinitions (countdown ++ [pairType])) .codegen = .ok c ∧
    compile (Program.ofDefinitions (pairType :: countdown.reverse)) .codegen = .ok c' ∧
    c.assembly = some assembly ∧ c'.assembly = some assembly' ∧
    assembly'.registersUsed = assembly.registersUsed ∧
    ∀ q ∈ (Program.mk (countdown ++ [pairType])).procedures, q.SameFrame c.tables c'.tables ∧
      q.SameCode assembly.code assembly'.code := by
  have hrearranged : Rearranged (countdown ++ [pairType]) (pairType :: countdown.reverse) :=
    ⟨rfl, List.Perm.swap _ _ _⟩
  have hok : (compile (Program.ofDefinitions (countdown ++ [pairType])) .codegen).isOk = true := by
    decide +kernel
  cases hc : compile (Program.ofDefinitions (countdown ++ [pairType])) .codegen with
  | error e =>
    rw [hc] at hok
    cases hok
  | ok c =>
    obtain ⟨c', assembly, assembly', h⟩ := (compile_rearranged _ _ hrearranged).2 c hc
    exact ⟨c, c', assembly, assembly', rfl, h⟩

end TreeCompiler
