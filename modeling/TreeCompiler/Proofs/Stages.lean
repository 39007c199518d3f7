import TreeCompiler.Compilation
import TreeCompiler.Proofs.Emission.Program
import TreeCompiler.Proofs.Frame.Independence
import TreeCompiler.Proofs.Typing.Handles

/-!
# Compiling up to a stage

A compilation that succeeds goes from stage to stage (`Program.Reaches`), and one that fails meets a
fault at a stage whose predecessors succeed (`Program.Meets`).  The stages before do not depend on
where one asks to stop, so that a compilation up to a later stage starts as one up to an earlier stage
does (`compile_stages`).  The types that a fault shows exist, and therefore its message can be put
together.
-/

namespace TreeCompiler

/-! ### Faults -/

/-- Why a compilation fails. -/
inductive PassFault where
  | semantic (e : Located SemanticError)
  | frame (e : Located FrameError)
  | emission (e : Located EmissionError)

namespace PassFault

/-- The line to blame. -/
def line : PassFault → Option UInt32
  | semantic e => e.line
  | frame e => e.line
  | emission e => e.line

/-- The types that the message shows; only faults of declarations and bodies show any. -/
def types : PassFault → List TypeId
  | semantic e => e.cause.types
  | frame _ | emission _ => []

/-- The message without the line. -/
def text (table : TypeTable) : PassFault → Except UnknownType String
  | semantic e => e.cause.message table
  | frame e => .ok e.cause.message
  | emission e => .ok e.cause.message

/-- The status to end with. -/
def exitCode : PassFault → Nat
  | semantic e => e.cause.exitCode
  | frame e => e.cause.exitCode
  | emission e => e.cause.exitCode

/-- What is reported of the fault. -/
def failure (table : TypeTable) : PassFault → Failure
  | semantic e => .ofLocated table e
  | frame e => .ofLocated table e
  | emission e => .ofLocated table e

end PassFault

/-- What stands before a message that blames a line. -/
def linePrefix : Option UInt32 → String
  | some line => "L" ++ toString line.toNat ++ ": "
  | none => ""

/-- What is reported of a fault whose message can be put together. -/
lemma Failure.ofLocated_eq {ε : Type} [Diagnostic ε] (table : TypeTable) {e : Located ε}
    {text : String} (h : Diagnostic.message table e.cause = .ok text) :
    Failure.ofLocated table e = ⟨e.exitCode, linePrefix e.line ++ text⟩ := by
  have hmessage : e.message table = .ok (linePrefix e.line ++ text) := by
    unfold Located.message
    rw [h]
    cases e.line with
    | some line => rfl
    | none => exact congrArg Except.ok (String.empty_append).symm
  unfold ofLocated
  rw [hmessage]

/-- A fault whose types have names is reported with its line and its message. -/
lemma PassFault.exists_text {table : TypeTable} {fault : PassFault}
    (h : ∀ id ∈ fault.types, ∃ name, table.name id = .ok name) : ∃ text,
      fault.text table = .ok text ∧
      fault.failure table = ⟨fault.exitCode, linePrefix fault.line ++ text⟩ := by
  cases fault with
  | semantic e =>
    obtain ⟨text, htext⟩ := SemanticError.exists_message h
    exact ⟨text, htext, Failure.ofLocated_eq table htext⟩
  | frame e => exact ⟨_, rfl, Failure.ofLocated_eq table rfl⟩
  | emission e => exact ⟨_, rfl, Failure.ofLocated_eq table rfl⟩

/-! ### Stages -/

/-- Compilations of the same program agree: nodes that have types in both have the same ones, and the
tables differ in places and layouts at most, and only if frames are laid out in one of the two. -/
structure Compilation.Agrees (c c' : Compilation) : Prop where
  annotations : ∀ types types', c.annotations = some types → c'.annotations = some types' →
    types = types'
  erase : c'.tables.erase = c.tables.erase
  tables : Stage.vars.rank ≤ c.stage.rank ∨ c'.stage.rank < Stage.vars.rank → c'.tables = c.tables

/-- A compilation agrees with itself. -/
lemma Compilation.Agrees.refl (c : Compilation) : c.Agrees c :=
  ⟨fun _ _ h h' => Option.some.inj (h.symm.trans h'), rfl, fun _ => rfl⟩

namespace Program

variable {p : Program} {s s' : Stage} {c c' : Compilation} {fault : PassFault} {table : TypeTable}

/-- A compilation reaches a stage after the one before. -/
inductive Reaches (p : Program) : Stage → Compilation → Prop where
  | tables {declared : Tables} : p.declare.runOn .predefined = (.ok (), declared) →
      Reaches p .tables ⟨.tables, declared, none, none⟩
  | semant {declared : Tables} {types : Annotations} :
      Reaches p .tables ⟨.tables, declared, none, none⟩ → p.check declared = .ok types →
      Reaches p .semant ⟨.semant, declared, some types, none⟩
  | vars {declared allocated : Tables} {types : Annotations} :
      Reaches p .semant ⟨.semant, declared, some types, none⟩ →
      p.allocate.runOn declared = (.ok (), allocated) →
      Reaches p .vars ⟨.vars, allocated, some types, none⟩
  | codegen {allocated : Tables} {types : Annotations} {assembly : Assembly} :
      Reaches p .vars ⟨.vars, allocated, some types, none⟩ → p.emit allocated types = .ok assembly →
      Reaches p .codegen ⟨.codegen, allocated, some types, some assembly⟩

/-- A compilation that has reached the stage before meets a fault, with the types that there are. -/
inductive Meets (p : Program) : Stage → PassFault → TypeTable → Prop where
  | tables {t : Tables} {e : Located SemanticError} :
      p.declare.runOn .predefined = (.error e, t) → Meets p .tables (.semantic e) t.types
  | semant {declared : Tables} {e : Located SemanticError} :
      Reaches p .tables ⟨.tables, declared, none, none⟩ → p.check declared = .error e →
      Meets p .semant (.semantic e) declared.types
  | vars {declared t : Tables} {types : Annotations} {e : Located FrameError} :
      Reaches p .semant ⟨.semant, declared, some types, none⟩ →
      p.allocate.runOn declared = (.error e, t) → Meets p .vars (.frame e) t.types
  | codegen {allocated : Tables} {types : Annotations} {e : Located EmissionError} :
      Reaches p .vars ⟨.vars, allocated, some types, none⟩ → p.emit allocated types = .error e →
      Meets p .codegen (.emission e) allocated.types

/-! ### Compilations -/

/-- The first stage that is reached is that of the declarations. -/
lemma Reaches.declared {declared : Tables} (h : p.Reaches .tables ⟨.tables, declared, none, none⟩) :
    p.declare.tables .predefined = .ok declared := by
  cases h with
  | tables hdeclared => exact Pass.tables_eq_ok.mpr hdeclared

/-- The second stage that is reached is that of the bodies. -/
lemma Reaches.checked {declared : Tables} {types : Annotations}
    (h : p.Reaches .semant ⟨.semant, declared, some types, none⟩) :
    p.declare.tables .predefined = .ok declared ∧
      reportFailure declared (p.check declared) = .ok types := by
  cases h with
  | semant h hchecked => exact ⟨h.declared, reportFailure_eq_ok.mpr hchecked⟩

/-- The third stage that is reached is that of the frames. -/
lemma Reaches.allocated {allocated : Tables} {types : Annotations}
    (h : p.Reaches .vars ⟨.vars, allocated, some types, none⟩) : ∃ declared,
      p.declare.tables .predefined = .ok declared ∧
      reportFailure declared (p.check declared) = .ok types ∧
      p.allocate.tables declared = .ok allocated := by
  cases h with
  | vars h hallocated =>
    obtain ⟨hdeclared, hchecked⟩ := h.checked
    exact ⟨_, hdeclared, hchecked, Pass.tables_eq_ok.mpr hallocated⟩

/-- A compilation gives what it reaches. -/
lemma Reaches.compile_eq (h : p.Reaches s c) : compile p s = .ok c := by
  cases h with
  | tables hdeclared => exact bind_eq_ok.mpr ⟨_, Pass.tables_eq_ok.mpr hdeclared, rfl⟩
  | semant h hchecked =>
    exact bind_eq_ok.mpr ⟨_, h.declared, bind_eq_ok.mpr ⟨_, reportFailure_eq_ok.mpr hchecked, rfl⟩⟩
  | vars h hallocated =>
    obtain ⟨hdeclared, hchecked⟩ := h.checked
    exact bind_eq_ok.mpr ⟨_, hdeclared, bind_eq_ok.mpr ⟨_, hchecked,
      bind_eq_ok.mpr ⟨_, Pass.tables_eq_ok.mpr hallocated, rfl⟩⟩⟩
  | codegen h hemitted =>
    obtain ⟨declared, hdeclared, hchecked, hallocated⟩ := h.allocated
    exact bind_eq_ok.mpr ⟨_, hdeclared, bind_eq_ok.mpr ⟨_, hchecked, bind_eq_ok.mpr ⟨_, hallocated,
      bind_eq_ok.mpr ⟨_, reportFailure_eq_ok.mpr hemitted, rfl⟩⟩⟩⟩

/-- A compilation fails with the fault that it meets, whatever the stage is at which it would stop. -/
lemma Meets.compile_eq {stage : Stage} (h : p.Meets stage fault table) (hs : stage.rank ≤ s.rank) :
    compile p s = .error (fault.failure table) := by
  cases h with
  | tables hdeclared =>
    exact bind_eq_error.mpr (.inl (Pass.tables_eq_error.mpr ⟨_, _, hdeclared, rfl⟩))
  | semant h hchecked =>
    refine bind_eq_error.mpr (.inr ⟨_, h.declared, ?_⟩)
    cases s with
    | tables => exact absurd hs (by decide)
    | semant | vars | codegen =>
      exact bind_eq_error.mpr (.inl (reportFailure_eq_error.mpr ⟨_, hchecked, rfl⟩))
  | vars h hallocated =>
    obtain ⟨hdeclared, hchecked⟩ := h.checked
    refine bind_eq_error.mpr (.inr ⟨_, hdeclared, ?_⟩)
    cases s with
    | tables | semant => exact absurd hs (by decide)
    | vars | codegen =>
      refine bind_eq_error.mpr (.inr ⟨_, hchecked, ?_⟩)
      exact bind_eq_error.mpr (.inl (Pass.tables_eq_error.mpr ⟨_, _, hallocated, rfl⟩))
  | codegen h hemitted =>
    obtain ⟨declared, hdeclared, hchecked, hallocated⟩ := h.allocated
    cases s with
    | tables | semant | vars => exact absurd hs (by decide)
    | codegen =>
      refine bind_eq_error.mpr (.inr ⟨_, hdeclared, bind_eq_error.mpr (.inr ⟨_, hchecked,
        bind_eq_error.mpr (.inr ⟨_, hallocated, ?_⟩)⟩)⟩)
      exact bind_eq_error.mpr (.inl (reportFailure_eq_error.mpr ⟨_, hemitted, rfl⟩))

/-- After a stage, the next one is reached or meets a fault. -/
lemma Reaches.next (h : p.Reaches s c) (hs : s'.rank = s.rank + 1) :
    (∃ c', p.Reaches s' c') ∨ ∃ fault table, p.Meets s' fault table := by
  cases h with
  | @tables declared hdeclared =>
    cases s' with
    | tables | vars | codegen => cases hs
    | semant =>
      cases hchecked : p.check declared with
      | ok types => exact .inl ⟨_, .semant (.tables hdeclared) hchecked⟩
      | error e => exact .inr ⟨_, _, .semant (.tables hdeclared) hchecked⟩
  | @semant declared types h hchecked =>
    cases s' with
    | tables | semant | codegen => cases hs
    | vars =>
      rcases hallocated : p.allocate.runOn declared with ⟨e | ⟨⟩, allocated⟩
      · exact .inr ⟨_, _, .vars (.semant h hchecked) hallocated⟩
      · exact .inl ⟨_, .vars (.semant h hchecked) hallocated⟩
  | @vars declared allocated types h hallocated =>
    cases s' with
    | tables | semant | vars => cases hs
    | codegen =>
      cases hemitted : p.emit allocated types with
      | ok assembly => exact .inl ⟨_, .codegen (.vars h hallocated) hemitted⟩
      | error e => exact .inr ⟨_, _, .codegen (.vars h hallocated) hemitted⟩
  | codegen => cases s' <;> cases hs

/-- A stage is reached, or a fault is met on the way. -/
def Decides (p : Program) (s : Stage) : Prop :=
  (∃ c, p.Reaches s c) ∨ ∃ stage fault table, stage.rank ≤ s.rank ∧ p.Meets stage fault table

/-- What is decided for a stage is decided for the next one. -/
lemma Decides.next (h : p.Decides s) (hs : s'.rank = s.rank + 1) : p.Decides s' := by
  rcases h with ⟨c, hc⟩ | ⟨stage, fault, table, hle, hmeets⟩
  · rcases hc.next hs with hreaches | ⟨fault, table, hmeets⟩
    · exact .inl hreaches
    · exact .inr ⟨s', fault, table, le_rfl, hmeets⟩
  · exact .inr ⟨stage, fault, table, hs ▸ hle.trans (Nat.le_succ _), hmeets⟩

/-- Every stage is decided. -/
lemma decides (p : Program) (s : Stage) : p.Decides s := by
  have htables : p.Decides .tables := by
    rcases hdeclared : p.declare.runOn .predefined with ⟨e | ⟨⟩, declared⟩
    · exact .inr ⟨_, _, _, le_rfl, .tables hdeclared⟩
    · exact .inl ⟨_, .tables hdeclared⟩
  have hsemant : p.Decides .semant := htables.next rfl
  have hvars : p.Decides .vars := hsemant.next rfl
  cases s with
  | tables => exact htables
  | semant => exact hsemant
  | vars => exact hvars
  | codegen => exact hvars.next rfl

/-- A compilation succeeds if it reaches its stage. -/
lemma compile_eq_ok_iff : compile p s = .ok c ↔ p.Reaches s c := by
  refine ⟨fun h => ?_, Reaches.compile_eq⟩
  rcases p.decides s with ⟨c', hc'⟩ | ⟨stage, fault, table, hle, hmeets⟩
  · have heq := hc'.compile_eq
    rw [h] at heq
    cases heq
    exact hc'
  · rw [hmeets.compile_eq hle] at h
    cases h

/-- A compilation fails if it meets a fault on the way to its stage. -/
lemma compile_eq_error_iff {f : Failure} : compile p s = .error f ↔
    ∃ stage fault table, stage.rank ≤ s.rank ∧ p.Meets stage fault table ∧
      f = fault.failure table := by
  constructor
  · intro h
    rcases p.decides s with ⟨c, hc⟩ | ⟨stage, fault, table, hle, hmeets⟩
    · rw [hc.compile_eq] at h
      cases h
    · rw [hmeets.compile_eq hle] at h
      cases h
      exact ⟨stage, fault, table, hle, hmeets, rfl⟩
  · rintro ⟨stage, fault, table, hle, hmeets, rfl⟩
    exact hmeets.compile_eq hle

/-! ### Earlier and later stages -/

/-- A compilation notes the stage that it has reached. -/
lemma Reaches.stage_eq (h : p.Reaches s c) : c.stage = s := by
  cases h <;> rfl

/-- A compilation that reaches a stage has reached every earlier stage with something that agrees. -/
lemma Reaches.exists_earlier (h : p.Reaches s' c') (hs : s.rank ≤ s'.rank) :
    ∃ c, p.Reaches s c ∧ c.Agrees c' := by
  induction h with
  | tables hdeclared =>
    cases s with
    | tables => exact ⟨_, .tables hdeclared, .refl _⟩
    | semant | vars | codegen => exact absurd hs (by decide)
  | semant h hchecked ih =>
    cases s with
    | tables => exact ⟨_, h, nofun, rfl, fun _ => rfl⟩
    | semant => exact ⟨_, .semant h hchecked, .refl _⟩
    | vars | codegen => exact absurd hs (by decide)
  | @vars declared allocated types h hallocated ih =>
    have herase : (p.allocate.runOn declared).2.erase = declared.erase :=
      (p.allocate_keeps_erase declared).outcome rfl
    rw [hallocated] at herase
    have hbefore : s.rank ≤ Stage.semant.rank →
        ∃ c, p.Reaches s c ∧ c.Agrees ⟨.vars, allocated, some types, none⟩ := by
      intro hle
      obtain ⟨c, hc, hagrees⟩ := ih hle
      refine ⟨c, hc, hagrees.annotations, herase.trans hagrees.erase, fun hframes => ?_⟩
      rw [hc.stage_eq] at hframes
      exact absurd hframes (not_or.mpr ⟨Nat.not_le_of_lt (Nat.lt_succ_of_le hle), Nat.lt_irrefl _⟩)
    cases s with
    | tables | semant => exact hbefore (by decide)
    | vars => exact ⟨_, .vars h hallocated, .refl _⟩
    | codegen => exact absurd hs (by decide)
  | @codegen allocated types assembly h hemitted ih =>
    have hbefore : s.rank ≤ Stage.vars.rank →
        ∃ c, p.Reaches s c ∧ c.Agrees ⟨.codegen, allocated, some types, some assembly⟩ := by
      intro hle
      obtain ⟨c, hc, hagrees⟩ := ih hle
      refine ⟨c, hc, hagrees.annotations, hagrees.erase, fun hframes => hagrees.tables (.inl ?_)⟩
      exact hframes.resolve_right (show ¬Stage.codegen.rank < Stage.vars.rank by decide)
    cases s with
    | tables | semant | vars => exact hbefore (by decide)
    | codegen => exact ⟨_, .codegen h hemitted, .refl _⟩

/-- The types that a fault shows exist in the table that there is when it is met, and have names. -/
lemma Meets.types_exist {stage : Stage} (h : p.Meets stage fault table) :
    ∀ id ∈ fault.types, table.contains id = true ∧ ∃ name, table.name id = .ok name := by
  cases h with
  | @tables t e hdeclared =>
    have hnone : (PassFault.semantic e).types = [] :=
      (p.declare_namesNoTypes .predefined).of_error hdeclared
    rw [hnone]
    exact fun _ hid => absurd hid List.not_mem_nil
  | @semant declared e h hchecked =>
    have hdeclared := Pass.tables_eq_ok.mp h.declared
    have hgrows : Tables.initial.GrowsTo (p.declare.runOn .predefined).2 :=
      p.declare_grows.outcome Tables.predefined_grows
    rw [hdeclared] at hgrows
    have hbelong := p.declare_belongTo.of_ok hdeclared
    intro id hid
    have hexists := types_of_check (hgrows.typesExist Tables.initial_typesExist) hchecked id hid
    obtain ⟨shape, hshape⟩ := hbelong.wellFormed.exists_shape? hexists
    exact ⟨hexists, _, TypeTable.name_of_shape? hshape⟩
  | vars | codegen => exact fun _ hid => absurd hid List.not_mem_nil

end Program

/-- Compilations of a program up to different stages start alike.  Where one up to a stage fails, those
up to later stages fail with the same status and message.  Where one up to a later stage succeeds, the
earlier one does, and both agree: nodes have the same types, and the tables are the same up to places
and layouts, and the same altogether if the frames are laid out in both or in neither.  A failure is that
of the first fault that is met; all the types that the fault shows exist at this moment, so that the
message is always that of the fault, behind the line if there is one to blame. -/
theorem compile_stages (p : Program) :
    (∀ s s' : Stage, s.rank ≤ s'.rank →
      (∀ f, compile p s = .error f → compile p s' = .error f) ∧
      ∀ c', compile p s' = .ok c' → ∃ c, compile p s = .ok c ∧
        (∀ types types', c.annotations = some types → c'.annotations = some types' →
          types = types') ∧
        c'.tables.erase = c.tables.erase ∧
        (Stage.vars.rank ≤ s.rank ∨ s'.rank < Stage.vars.rank → c'.tables = c.tables)) ∧
    (∀ s f, compile p s = .error f ↔ ∃ stage fault table, stage.rank ≤ s.rank ∧
      p.Meets stage fault table ∧ f = fault.failure table) ∧
    ∀ stage fault table, p.Meets stage fault table →
      (∀ id ∈ fault.types, table.contains id = true) ∧
      ∃ text, fault.text table = .ok text ∧
        fault.failure table = ⟨fault.exitCode, linePrefix fault.line ++ text⟩ := by
  refine ⟨fun s s' hs => ⟨fun f hf => ?_, fun c' hc' => ?_⟩, fun s f => Program.compile_eq_error_iff,
    fun stage fault table hmeets => ?_⟩
  · obtain ⟨stage, fault, table, hle, hmeets, rfl⟩ := Program.compile_eq_error_iff.mp hf
    exact hmeets.compile_eq (hle.trans hs)
  · have hreaches' := Program.compile_eq_ok_iff.mp hc'
    obtain ⟨c, hreaches, hagrees⟩ := hreaches'.exists_earlier hs
    refine ⟨c, hreaches.compile_eq, hagrees.annotations, hagrees.erase, ?_⟩
    rw [← hreaches.stage_eq, ← hreaches'.stage_eq]
    exact hagrees.tables
  · have hexist := hmeets.types_exist
    exact ⟨fun id hid => (hexist id hid).1, PassFault.exists_text fun id hid => (hexist id hid).2⟩

/-- A program in which an integer is assigned to a grid. -/
def filledGrid : Program where
  definitions := [
    .procedure
      { mark := .atLine 1
        name := "main"
        parameters := []
        locals := [⟨.atLine 2, "grid",
          .array (.atLine 2) 2 (.array (.atLine 2) 3 (.named (.atLine 2) "int"))⟩]
        body := [.assign (.atLine 3) (.named (.atLine 3) "grid") (.int (.atLine 3) 1)] }]

/-- The fault of the program with the grid shows the type of the grid, when bodies are checked and
later.  The counting program has the same tables once frames are laid out. -/
theorem compile_stages_filledGrid :
    (∃ fault table, filledGrid.Meets .semant fault table ∧ fault.types = [⟨3⟩, .int] ∧
      table.contains ⟨3⟩ = true) ∧
    compile filledGrid .codegen =
      .error ⟨108, "L3: assignment has different types: array [2] of array [3] of int := int"⟩ ∧
    ∃ c c', compile (Program.ofDefinitions countdown) .vars = .ok c ∧
      compile (Program.ofDefinitions countdown) .codegen = .ok c' ∧ c'.tables = c.tables := by
  have hfailed : compile filledGrid .semant =
      .error ⟨108, "L3: assignment has different types: array [2] of array [3] of int := int"⟩ := by
    decide +kernel
  have htables : filledGrid.Reaches .tables
      ⟨.tables, (filledGrid.declare.runOn .predefined).2, none, none⟩ := .tables (by decide +kernel)
  have hmeets : filledGrid.Meets .semant
      (.semantic ⟨some 3, .assignmentHasDifferentTypes ⟨3⟩ .int⟩)
      (filledGrid.declare.runOn .predefined).2.types := .semant htables (by decide +kernel)
  obtain ⟨hstages, -, hfaults⟩ := compile_stages filledGrid
  refine ⟨⟨_, _, hmeets, rfl, (hfaults _ _ _ hmeets).1 ⟨3⟩ List.mem_cons_self⟩,
    (hstages .semant .codegen (by decide)).1 _ hfailed, ?_⟩
  obtain ⟨c', hc'⟩ := exists_countdown_compiled
  obtain ⟨hstages, -⟩ := compile_stages (Program.ofDefinitions countdown)
  obtain ⟨c, hc, -, -, htables⟩ := (hstages .vars .codegen (by decide)).2 c' hc'
  exact ⟨c, c', hc, hc', htables (.inl le_rfl)⟩

end TreeCompiler
