import TreeCompiler.Proofs.Emission.Shaped
import TreeCompiler.Proofs.Order.Renaming

/-!
# What the passes accept

A program gets through the stages of a compilation if it can be declared, its bodies obey the typing
rules in the tables in which it is declared, its frames fit, and the registers suffice
(`Program.accepts_iff`).  None of this is different for a program that resembles another one: where the
types come from the same places, the same procedures are well-typed, and frames and registers depend
on the text of the procedures alone (`Program.Resembles.accepts`).
-/

namespace TreeCompiler

variable {p p' : Program} {t t' : Tables} {q : Procedure}

/-! ### Stages -/

/-- The tables in which a program is declared let it through a stage. -/
structure Program.Passes (p : Program) (t : Tables) (stage : Stage) : Prop where
  checked : 1 ≤ stage.rank → t.HasMain ∧ ∀ q ∈ p.procedures, q.WellTyped t
  framed : 2 ≤ stage.rank → ∀ q ∈ p.procedures, q.Fits p.typeNames t
  emitted : 3 ≤ stage.rank → p.need ≤ bankSize

/-- The frames of a program that is declared and well-typed are laid out if and only if they fit. -/
lemma Program.exists_allocate_eq_ok (h : t.BelongTo p) (htyped : ∀ q ∈ p.procedures, q.WellTyped t) :
    (∃ allocated, p.allocate.runOn t = (.ok (), allocated)) ↔
      ∀ q ∈ p.procedures, q.Fits p.typeNames t := by
  have hends := allocate_fits h htyped
  constructor
  · rintro ⟨allocated, hallocated⟩
    exact (hends.of_ok hallocated).2
  · intro hfits
    rcases hrun : p.allocate.runOn t with ⟨r, allocated⟩
    cases r with
    | ok => exact ⟨allocated, rfl⟩
    | error e =>
      obtain ⟨q, hq, -, hlarge⟩ := hends.of_error hrun
      exact absurd (hfits q hq) hlarge

/-- A program that is ready to be emitted is emitted if and only if the registers suffice. -/
lemma Program.Ready.exists_emit_eq_ok {types : Annotations} (h : p.Ready t types) :
    (∃ assembly, p.emit t types = .ok assembly) ↔ p.need ≤ bankSize := by
  rcases h.emit_eq with ⟨hfits, hok⟩ | ⟨e, he, hfailed⟩
  · exact ⟨fun _ => hfits, fun _ => ⟨_, hok⟩⟩
  · refine ⟨fun ⟨assembly, hok⟩ => ?_, fun hfits => ?_⟩
    · rw [hfailed] at hok
      cases hok
    · have hnone := firstOverflow?_eq_none (p.need_eq ▸ hfits)
      rw [he] at hnone
      cases hnone

/-- A program is accepted up to a stage if and only if it is declared in tables that let it through. -/
lemma Program.accepts_iff {definitions : List Definition} {stage : Stage} :
    (∃ c, compile (ofDefinitions definitions) stage = .ok c) ↔
      ∃ t, (ofDefinitions definitions).declare.runOn .predefined = (.ok (), t) ∧
        (ofDefinitions definitions).Passes t stage := by
  rw [exists_compile_eq_ok]
  refine exists_congr fun t => and_congr_right fun hdeclared => ?_
  have hbelong := (declare_belongTo (ofDefinitions definitions)).of_ok hdeclared
  constructor
  · intro h
    refine ⟨fun hone => ?_, fun htwo => ?_, fun hthree => ?_⟩
    · obtain ⟨types, hchecked, -⟩ := h hone
      exact wellTyped_of_check hchecked
    · obtain ⟨types, hchecked, hrest⟩ := h (Nat.le_of_succ_le htwo)
      obtain ⟨allocated, hallocated, -⟩ := hrest htwo
      exact (exists_allocate_eq_ok hbelong (wellTyped_of_check hchecked).2).mp ⟨_, hallocated⟩
    · obtain ⟨types, hchecked, hrest⟩ := h (Nat.le_trans (by decide) hthree)
      obtain ⟨allocated, hallocated, hlast⟩ := hrest (Nat.le_trans (by decide) hthree)
      exact (ready hdeclared hchecked hallocated).exists_emit_eq_ok.mp (hlast hthree)
  · intro h hone
    obtain ⟨types, hchecked⟩ := exists_check_eq_ok_iff.mpr (h.checked hone)
    refine ⟨types, hchecked, fun htwo => ?_⟩
    obtain ⟨allocated, hallocated⟩ :=
      (exists_allocate_eq_ok hbelong (h.checked hone).2).mpr (h.framed htwo)
    refine ⟨allocated, hallocated, fun hthree => ?_⟩
    exact (ready hdeclared hchecked hallocated).exists_emit_eq_ok.mpr (h.emitted hthree)

/-! ### Programs that agree -/

/-- Two programs resemble each other, their names mean the same, and they take the same registers. -/
structure Program.Agrees (p p' : Program) : Prop extends p.Resembles p' where
  backward : p'.Resembles p
  typeNames : p'.typeNames = p.typeNames
  signature : p'.signature = p.signature
  need : p'.need = p.need

/-- A procedure has the same sizes as one that is alike. -/
lemma Procedure.Alike.sizes {q' : Procedure} (h : q.Alike q') :
    q'.parameters.length = q.parameters.length ∧
      ∀ names signature, q'.frameBytes names signature = q.frameBytes names signature := by
  obtain ⟨text, n, n', rfl, rfl⟩ := h
  refine ⟨?_, fun names signature => ?_⟩
  · rw [text.length_parameters_number, text.length_parameters_number]
  · rw [text.frameBytes_number, text.frameBytes_number]

section
variable {g g' : List (ArrayType × Tag)} {stage : Stage}

/-- The main procedure of a program is that of a program that resembles it. -/
lemma Program.Resembles.hasMain (h : p.Resembles p') (hbelong : t.BelongTo p)
    (hbelong' : t'.BelongTo p') (hmain : t.HasMain) : t'.HasMain := by
  obtain ⟨q, hq, hname, hparameters⟩ := hbelong.exists_main hmain
  obtain ⟨q', hq', halike⟩ := h.procedures q hq
  obtain ⟨e', he'⟩ := hbelong'.declared q' hq'
  have hnone : q'.parameters = [] := by
    rw [← List.length_eq_zero_iff, halike.sizes.1, hparameters, List.length_nil]
  refine ⟨e', Tables.procedure?_eq_some.mpr ?_, ?_⟩
  · rw [← hname, ← halike.name]
    exact he'.bound
  · rw [← List.length_eq_zero_iff, he'.length_parameters, hnone, List.length_nil]

/-- The bodies of a program obey the typing rules if those of a program that resembles it do. -/
lemma Program.Resembles.wellTyped (h : p.Resembles p') (hbackward : p'.Resembles p)
    (hlists : t.Lists p.typeDefs p.procedures) (htraced : t.Traced p.typeDefs p.procedures g)
    (hlists' : t'.Lists p'.typeDefs p'.procedures) (htraced' : t'.Traced p'.typeDefs p'.procedures g')
    (htyped : ∀ q ∈ p.procedures, q.WellTyped t) : ∀ q' ∈ p'.procedures, q'.WellTyped t' := by
  intro q' hq'
  obtain ⟨q, hq, halike⟩ := hbackward.procedures q' hq'
  obtain ⟨e, he⟩ := hlists.holds.declared q hq
  obtain ⟨e', he'⟩ := hlists'.holds.declared q' hq'
  obtain ⟨entry, hentry, hbody⟩ := htyped q hq
  rw [Tables.procedure?_eq_some.mpr he.bound] at hentry
  cases hentry
  have hrenames := h.renames htraced htraced' hlists hlists' hq hq' halike.symm he he'
  obtain ⟨text, n', n, rfl, rfl⟩ := halike
  exact ⟨e', Tables.procedure?_eq_some.mpr he'.bound, wellTyped_numberStmts hrenames text.body hbody⟩

/-- Whatever lets a program through lets a program through that agrees with it. -/
lemma Program.Agrees.passes (h : p.Agrees p') (hlists : t.Lists p.typeDefs p.procedures)
    (htraced : t.Traced p.typeDefs p.procedures g) (hlists' : t'.Lists p'.typeDefs p'.procedures)
    (htraced' : t'.Traced p'.typeDefs p'.procedures g') (hpasses : p.Passes t stage) :
    p'.Passes t' stage := by
  refine ⟨fun hone => ?_, fun htwo q' hq' => ?_, fun hthree => ?_⟩
  · obtain ⟨hmain, htyped⟩ := hpasses.checked hone
    exact ⟨h.hasMain hlists.holds hlists'.holds hmain,
      h.wellTyped h.backward hlists htraced hlists' htraced' htyped⟩
  · obtain ⟨q, hq, halike⟩ := h.backward.procedures q' hq'
    obtain ⟨hlength, hframe⟩ := halike.sizes
    have hfits := (Tables.BelongTo.fits_iff hlists.holds).mp (hpasses.framed htwo q hq)
    refine (Tables.BelongTo.fits_iff hlists'.holds).mpr ?_
    rwa [h.typeNames, h.signature, ← hlength, ← hframe]
  · exact h.need.trans_le (hpasses.emitted hthree)

end

end TreeCompiler
