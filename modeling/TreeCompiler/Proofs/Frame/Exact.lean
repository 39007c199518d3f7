import TreeCompiler.Proofs.Frame.Allocation
import TreeCompiler.Proofs.Typing.Decision

/-!
# When frames fit, and what they are

The sizes that decide about frames can be read off the tables in which a program is declared: those in
which the parameters are passed, those of the local variables, and from both the area for the arguments
of callees.  Laying out frames succeeds exactly if the sums of these sizes, taken in whole numbers, fit
into a word.  Otherwise the first procedure whose variables alone are too large is to blame, or else the
first one whose frame is.  Every offset and every area is a sum of these sizes
(`Program.allocate_exact`).
-/

namespace TreeCompiler

/-! ### Sizes in the tables of declarations -/

namespace Tables

/-- The bytes in which each parameter of a global procedure is passed. -/
def parameterSizes (t : Tables) (name : String) : List Nat :=
  ((t.procedure? name).map fun e => e.parameters.map (·.passingSize t.types)).getD []

/-- The bytes that a local variable of a procedure takes. -/
def localSize (t : Tables) (q : Procedure) (v : LocalVar) : Nat :=
  (((t.procedure? q.name).bind fun e => (t.scope e.scope).findVar? v.name).map fun slot =>
    t.types.byteSize slot.type).getD 0

/-- The bytes that each local variable of a procedure takes. -/
def localSizes (t : Tables) (q : Procedure) : List Nat := q.locals.map (t.localSize q)

/-- The bytes of the largest argument area among the procedures that are called anywhere in the body of
a procedure. -/
def outgoingSize (t : Tables) (q : Procedure) : Nat :=
  (q.calls.map fun c => (t.parameterSizes c.1).sum).foldr max 0

/-- Whether the parameters or the local variables of a procedure alone are too large. -/
def variablesTooLarge (t : Tables) (q : Procedure) : Bool :=
  Word.max < (t.parameterSizes q.name).sum || Word.max < (t.localSizes q).sum

/-- Whether what a procedure keeps below its frame pointer is too large. -/
def frameTooLarge (t : Tables) (q : Procedure) : Bool :=
  Word.max < ((t.localSizes q).sum + t.outgoingSize q + 8 : Nat)

/-- The procedure that is to blame if frames do not fit. -/
def oversized? (t : Tables) (p : Program) : Option Procedure :=
  (p.procedures.find? t.variablesTooLarge).or (p.procedures.find? t.frameTooLarge)

end Tables

section
variable {names : List (String × ValueShape)} {procedures : List Procedure} {t t' : Tables}
  {q : Procedure} {e : ProcedureEntry} {name : String}

namespace Tables.Holds

/-- Every parameter of a global procedure is passed in a word. -/
lemma parameterSizes_eq (h : t.Holds names procedures)
    (he : t.binding? .global name = some (.procedure e)) :
    t.parameterSizes name = List.replicate e.parameters.length Word.size := by
  unfold parameterSizes
  rw [procedure?_eq_some.mpr he]
  exact List.map_eq_replicate_iff.mpr (h.passingSize_eq he)

/-- The parameters of a procedure take the bytes of its argument area. -/
lemma sum_parameterSizes (h : t.Holds names procedures) (name : String) :
    (t.parameterSizes name).sum = t.argumentBytes name := by
  unfold argumentBytes
  cases he : t.procedure? name with
  | none =>
    unfold parameterSizes
    rw [he]
    rfl
  | some e =>
    rw [h.parameterSizes_eq (procedure?_eq_some.mp he), List.sum_replicate_nat, Nat.mul_comm]
    rfl

/-- The area for outgoing arguments takes the bytes of the largest argument area. -/
lemma outgoingSize_eq (h : t.Holds names procedures) :
    t.outgoingSize q = t.outgoingBytes q.calls := by
  unfold outgoingSize outgoingBytes
  simp only [h.sum_parameterSizes]

end Tables.Holds

/-- The local variables of a declared procedure take the bytes that are written. -/
lemma Tables.Declares.localSizes_eq (he : t.Declares names q e) (hwf : t.types.WellFormed) :
    t.localSizes q = (q.locals.map LocalVar.decl).map (VariableDecl.bytes names) := by
  unfold localSizes
  rw [List.map_map]
  apply List.map_congr_left
  intro v hv
  have hdecl : v.decl ∈ q.decls := List.mem_append_right _ (List.mem_map_of_mem hv)
  obtain ⟨slot, hslot, hholds⟩ := he.knows v.decl hdecl
  have hfound : (t.scope e.scope).findVar? v.name = some slot := findVar?_eq_some.mpr hslot
  unfold localSize
  rw [procedure?_eq_some.mpr he.bound, Option.bind_some, hfound]
  exact hholds.byteSize_eq hwf

/-! ### Faults -/

namespace Tables.Holds

/-- The parameters of a procedure are passed in as many words. -/
lemma sum_parameterSizes_of_mem (h : t.Holds names procedures) (hq : q ∈ procedures) :
    (t.parameterSizes q.name).sum = Word.size * q.parameters.length := by
  obtain ⟨e, he⟩ := h.declared q hq
  rw [h.sum_parameterSizes, ← he.length_parameters]
  unfold argumentBytes
  rw [procedure?_eq_some.mpr he.bound]
  rfl

/-- The local variables of a procedure take the bytes of its local area. -/
lemma sum_localSizes (h : t.Holds names procedures) (hq : q ∈ procedures) :
    (t.localSizes q).sum = q.localBytes names := by
  obtain ⟨e, he⟩ := h.declared q hq
  rw [he.localSizes_eq h.wellFormed]
  rfl

/-- The variables of a procedure have a fault if they are too large. -/
lemma variablesFault?_eq (h : t.Holds names procedures) (hq : q ∈ procedures) :
    q.variablesFault? names =
      if t.variablesTooLarge q then some (.frameTooLarge q.name) else none := by
  have hiff : t.variablesTooLarge q = true ↔
      ¬((Word.size * q.parameters.length : Int) ≤ Word.max ∧
        (q.localBytes names : Int) ≤ Word.max) := by
    unfold variablesTooLarge
    rw [h.sum_parameterSizes_of_mem hq, h.sum_localSizes hq, Bool.or_eq_true, decide_eq_true_eq,
      decide_eq_true_eq]
    push_cast
    omega
  by_cases hlarge : t.variablesTooLarge q = true
  · rw [if_pos hlarge]
    exact Procedure.variablesFault?_eq_some.mpr ⟨rfl, hiff.mp hlarge⟩
  · rw [if_neg hlarge]
    exact Procedure.variablesFault?_eq_none.mpr (Classical.not_not.mp (hiff.not.mp hlarge))

/-- The area for outgoing arguments of a well-typed procedure has a fault if the frame is too large. -/
lemma outgoingFault?_eq_ite (h : t.Holds names procedures) (hq : q ∈ procedures)
    (htyped : q.WellTyped t) : q.outgoingFault? names t =
      if t.frameTooLarge q then some (.frameTooLarge q.name) else none := by
  have hiff : t.frameTooLarge q = true ↔
      ¬(q.localBytes names + t.outgoingBytes q.calls + 2 * Word.size : Int) ≤ Word.max := by
    have hword : (Word.size : Int) = 4 := rfl
    unfold frameTooLarge
    rw [h.sum_localSizes hq, h.outgoingSize_eq, decide_eq_true_eq]
    push_cast
    omega
  rw [h.outgoingFault?_eq hq htyped]
  by_cases hlarge : t.frameTooLarge q = true
  · rw [if_pos hlarge, if_neg (hiff.mp hlarge)]
  · rw [if_neg hlarge, if_pos (Classical.not_not.mp (hiff.not.mp hlarge))]

end Tables.Holds

/-- The first fault of a well-typed program is that of the procedure that is to blame. -/
lemma Program.frameFault?_eq {p : Program} (h : t.BelongTo p)
    (htyped : ∀ q ∈ p.procedures, q.WellTyped t) : p.frameFault? t =
      (t.oversized? p).map fun q => .atLine q.mark.line (.frameTooLarge q.name) := by
  have hvariables : firstVariablesFault? p.typeNames p.procedures =
      (p.procedures.find? t.variablesTooLarge).map fun q =>
        .atLine q.mark.line (.frameTooLarge q.name) := by
    apply findSome?_eq_map_find?
    intro q hq
    rw [h.variablesFault?_eq hq]
    split <;> rfl
  have houtgoing : firstOutgoingFault? p.typeNames t p.procedures =
      (p.procedures.find? t.frameTooLarge).map fun q =>
        .atLine q.mark.line (.frameTooLarge q.name) := by
    apply findSome?_eq_map_find?
    intro q hq
    rw [h.outgoingFault?_eq_ite hq (htyped q hq)]
    split <;> rfl
  unfold frameFault? Tables.oversized?
  rw [hvariables, houtgoing]
  cases p.procedures.find? t.variablesTooLarge <;> rfl

/-- No procedure is to blame if and only if the variables and the frame of every procedure fit. -/
lemma Tables.oversized?_eq_none {p : Program} : t.oversized? p = none ↔
    ∀ q ∈ p.procedures, ((t.parameterSizes q.name).sum : Int) ≤ Word.max ∧
      ((t.localSizes q).sum + t.outgoingSize q + 8 : Int) ≤ Word.max := by
  unfold oversized?
  rw [Option.or_eq_none_iff, List.find?_eq_none, List.find?_eq_none]
  constructor
  · rintro ⟨hvariables, hframes⟩ q hq
    have hvariable := hvariables q hq
    have hframe := hframes q hq
    unfold variablesTooLarge at hvariable
    unfold frameTooLarge at hframe
    simp only [Bool.or_eq_true, decide_eq_true_eq, not_or, not_lt] at hvariable hframe
    exact ⟨hvariable.1, by omega⟩
  · intro hfits
    constructor
    · intro q hq
      unfold variablesTooLarge
      simp only [Bool.or_eq_true, decide_eq_true_eq, not_or, not_lt]
      have hframe := (hfits q hq).2
      exact ⟨(hfits q hq).1, by omega⟩
    · intro q hq
      unfold frameTooLarge
      rw [decide_eq_true_eq, not_lt]
      have hframe := (hfits q hq).2
      omega

/-! ### Offsets and areas -/

/-- The frame of a procedure is laid out as the sizes in the tables of declarations say. -/
structure Tables.LaysOutExactly (declared : Tables) (q : Procedure) (t : Tables)
    (e : ProcedureEntry) : Prop where
  entry : t.procedure? q.name = some e
  /-- Each parameter lies above those before it, for the procedure itself and for its callers. -/
  parameterOffsets : ∀ (k : Nat) x, q.parameters[k]? = some x → ∃ own listed,
    (t.scope e.scope).findVar? x.name = some own ∧ e.parameters[k]? = some listed ∧
      own.offset = some (((declared.parameterSizes q.name).take k).sum : Int) ∧
      listed.offset = some (((declared.parameterSizes q.name).take k).sum : Int)
  argumentArea : e.layout.arguments = some ((declared.parameterSizes q.name).sum : Int)
  /-- Each local variable lies below itself and those before it. -/
  localOffsets : ∀ (k : Nat) v, q.locals[k]? = some v → ∃ own,
    (t.scope e.scope).findVar? v.name = some own ∧
      own.offset = some (-((declared.localSizes q).take (k + 1)).sum : Int)
  localArea : e.layout.locals = some ((declared.localSizes q).sum : Int)
  /-- There is an area for outgoing arguments if there is a call, be it of no arguments. -/
  outgoingArea : e.layout.outgoing =
    some (if q.calls = [] then .noCalls else .bytes (declared.outgoingSize q))

namespace Tables.LaysOut

variable {declared : Tables}

/-- The variables of a procedure lie at the sums of the sizes before them. -/
lemma places_getElem? (h : t.LaysOut names q e) :
    (∀ (k : Nat) x, q.parameters[k]? = some x → t.Places e.scope x.decl (Word.size * k : Int)) ∧
      ∀ (k : Nat) v, q.locals[k]? = some v → t.Places e.scope v.decl
        (-bytesOf names ((q.locals.map LocalVar.decl).take (k + 1)) : Int) := by
  have hplaces := h.places
  unfold Procedure.decls Procedure.offsets at hplaces
  have hlength : (q.parameters.map Parameter.decl).length =
      (wordsFrom 0 q.parameters.length).length := by
    rw [List.length_map, length_wordsFrom]
  obtain ⟨hparameters, hlocals⟩ := forall₂_append_of_length hlength hplaces
  constructor
  · intro k x hx
    have hk : k < q.parameters.length := (List.getElem?_eq_some_iff.mp hx).1
    have hdecl : (q.parameters.map Parameter.decl)[k]? = some x.decl := by
      rw [List.getElem?_map, hx, Option.map_some]
    obtain ⟨offset, hoffset, hplace⟩ := forall₂_getElem? hparameters hdecl
    rw [getElem?_wordsFrom hk, Option.some.injEq, Int.zero_add] at hoffset
    rwa [hoffset]
  · intro k v hv
    have hk : k < (q.locals.map LocalVar.decl).length := by
      rw [List.length_map]
      exact (List.getElem?_eq_some_iff.mp hv).1
    have hdecl : (q.locals.map LocalVar.decl)[k]? = some v.decl := by
      rw [List.getElem?_map, hv, Option.map_some]
    obtain ⟨offset, hoffset, hplace⟩ := forall₂_getElem? hlocals hdecl
    rw [getElem?_offsetsBelow hk, Option.some.injEq, Int.zero_sub] at hoffset
    rwa [hoffset]

/-- A frame that is laid out for declared variables is laid out as their sizes say. -/
lemma exactly (hdeclared : declared.Holds names procedures) (hq : q ∈ procedures)
    (herase : t.erase = declared.erase) (h : t.LaysOut names q e) :
    declared.LaysOutExactly q t e := by
  obtain ⟨d, hd⟩ := hdeclared.declared q hq
  obtain ⟨e', -, he'⟩ := hd.of_erase herase.symm
  cases h.bound.symm.trans he'.bound
  have hsizes : declared.parameterSizes q.name = List.replicate q.parameters.length Word.size := by
    rw [hdeclared.parameterSizes_eq hd.bound, hd.length_parameters]
  have hbefore : ∀ k, k < q.parameters.length →
      (((declared.parameterSizes q.name).take k).sum : Int) = Word.size * k := by
    intro k hk
    rw [hsizes, List.take_replicate, List.sum_replicate_nat, Nat.min_eq_left hk.le, Nat.mul_comm,
      Nat.cast_mul]
  have hlocalSizes := hd.localSizes_eq hdeclared.wellFormed
  obtain ⟨hparameters, hlocals⟩ := h.places_getElem?
  obtain ⟨hlisted, harguments⟩ := h.arguments
  rw [he'.length_parameters] at hlisted harguments
  refine { entry := procedure?_eq_some.mpr h.bound, parameterOffsets := fun k x hx => ?parameters,
           argumentArea := ?arguments, localOffsets := fun k v hv => ?localVars,
           localArea := ?locals, outgoingArea := ?outgoing }
  case parameters =>
    have hk : k < q.parameters.length := (List.getElem?_eq_some_iff.mp hx).1
    obtain ⟨own, hown, hoffset⟩ := hparameters k x hx
    have hlistedAt : (e.parameters.map Slot.offset)[k]? = some (some (Word.size * k : Int)) := by
      rw [hlisted, List.getElem?_map, getElem?_wordsFrom hk, Int.zero_add, Option.map_some]
    rw [List.getElem?_map, Option.map_eq_some_iff] at hlistedAt
    obtain ⟨listed, hlistedAt, hlistedOffset⟩ := hlistedAt
    rw [hbefore k hk]
    exact ⟨own, listed, findVar?_eq_some.mpr hown, hlistedAt, hoffset, hlistedOffset⟩
  case arguments =>
    rw [harguments, hdeclared.sum_parameterSizes_of_mem hq, Nat.cast_mul]
  case localVars =>
    obtain ⟨own, hown, hoffset⟩ := hlocals k v hv
    refine ⟨own, findVar?_eq_some.mpr hown, ?_⟩
    rw [hoffset, hlocalSizes, bytesOf, List.map_take]
  case locals =>
    rw [h.locals, hdeclared.sum_localSizes hq]
  case outgoing =>
    obtain ⟨area, sizes, harea, hnone, hcallees, hsize⟩ := h.outgoing
    have hbytes : area.size = declared.outgoingSize q := by
      rw [hsize, ← hcallees.outgoingBytes_eq, outgoingBytes_of_erase herase,
        hdeclared.outgoingSize_eq]
    rw [harea]
    by_cases hcalls : q.calls = []
    · rw [if_pos hcalls, hnone.mp hcalls]
    · rw [if_neg hcalls]
      cases area with
      | noCalls => exact absurd (hnone.mpr rfl) hcalls
      | bytes size => rw [← hbytes]; rfl

end Tables.LaysOut

end

/-- Frames are laid out exactly.  For a program that is declared and checked this succeeds if and only
if, for every procedure, the bytes of its parameters fit into a word, and so do the bytes of its local
variables together with those of its largest outgoing arguments and the two saved registers.  Otherwise
the procedure to blame is the first one whose parameters or local variables alone are too large, or else
the first one whose frame is.  If it succeeds, every offset and every area is the sum of the sizes that
the tables of declarations tell. -/
theorem Program.allocate_exact (p : Program) (declared : Tables) (types : Annotations)
    (hdeclared : p.declare.runOn .predefined = (.ok (), declared))
    (hchecked : p.check declared = .ok types) :
    ((∃ t, p.allocate.runOn declared = (.ok (), t)) ↔
      ∀ q ∈ p.procedures, ((declared.parameterSizes q.name).sum : Int) ≤ Word.max ∧
        ((declared.localSizes q).sum + declared.outgoingSize q + 8 : Int) ≤ Word.max) ∧
    (∀ e t, p.allocate.runOn declared = (.error e, t) → ∃ q, declared.oversized? p = some q ∧
      e = .atLine q.mark.line (.frameTooLarge q.name)) ∧
    ∀ t, p.allocate.runOn declared = (.ok (), t) →
      ∀ q ∈ p.procedures, ∃ e, declared.LaysOutExactly q t e := by
  have hbelong := (declare_belongTo p).of_ok hdeclared
  obtain ⟨-, htyped⟩ := exists_check_eq_ok_iff.mp ⟨types, hchecked⟩
  have hends := allocate_faults hbelong
  have hfault := frameFault?_eq hbelong htyped
  refine ⟨?succeeds, fun e t hrun => ?fails, fun t hrun q hq => ?exact⟩
  case succeeds =>
    rw [← Tables.oversized?_eq_none]
    constructor
    · rintro ⟨t, hrun⟩
      have hnone := (hends.of_ok hrun).1
      rwa [hfault, Option.map_eq_none_iff] at hnone
    · intro hnone
      rcases hrun : p.allocate.runOn declared with ⟨e | ⟨⟩, t⟩
      · have hsome := hends.of_error hrun
        rw [hfault, hnone] at hsome
        cases hsome
      · exact ⟨t, rfl⟩
  case fails =>
    have hsome := hends.of_error hrun
    rw [hfault, Option.map_eq_some_iff] at hsome
    obtain ⟨q, hq, rfl⟩ := hsome
    exact ⟨q, hq, rfl⟩
  case exact =>
    obtain ⟨-, herase, -, hlaysOut⟩ := hends.of_ok hrun
    obtain ⟨e, he⟩ := hlaysOut q hq
    exact ⟨e, he.exactly hbelong hq herase⟩

/-- A program whose main procedure has two arrays that fit into words one by one only. -/
def crowded : Program where
  definitions := [
    .procedure
      { mark := .atLine 1
        name := "half"
        parameters := []
        locals := [⟨.atLine 2, "a", .array (.atLine 2) 268435456 (.named (.atLine 2) "int")⟩]
        body := [] },
    .procedure
      { mark := .atLine 4
        name := "main"
        parameters := []
        locals := [⟨.atLine 5, "a", .array (.atLine 5) 268435456 (.named (.atLine 5) "int")⟩,
          ⟨.atLine 6, "b", .array (.atLine 6) 268435456 (.named (.atLine 6) "int")⟩]
        body := [.call (.atLine 7) "half" []] }]

/-- The tables in which the crowded program is declared. -/
def crowdedTables : Tables := (crowded.declare.runOn .predefined).2

/-- The frames of the counting program are laid out exactly, and in the crowded program the main
procedure is to blame. -/
theorem Program.allocate_exact_crowded :
    (∃ t, (ofDefinitions countdown).allocate.runOn countdownTables = (.ok (), t) ∧
      ∀ q ∈ (ofDefinitions countdown).procedures, ∃ e, countdownTables.LaysOutExactly q t e) ∧
    crowded.declare.runOn .predefined = (.ok (), crowdedTables) ∧
    (crowded.check crowdedTables).isOk = true ∧
    (crowded.allocate.runOn crowdedTables).1 = .error (.atLine 4 (.frameTooLarge "main")) := by
  have hcrowded : crowded.declare.runOn .predefined = (.ok (), crowdedTables) := by
    decide +kernel
  have hcrowdedChecked : (crowded.check crowdedTables).isOk = true := by
    decide +kernel
  have hfits : ∀ q ∈ (ofDefinitions countdown).procedures,
      ((countdownTables.parameterSizes q.name).sum : Int) ≤ Word.max ∧
        ((countdownTables.localSizes q).sum + countdownTables.outgoingSize q + 8 : Int) ≤
          Word.max := by
    decide +kernel
  have hblame : (crowdedTables.oversized? crowded).map (fun q => (q.mark.line, q.name)) =
      some (4, "main") := by
    decide +kernel
  obtain ⟨types, htypes⟩ := exists_countdown_checked
  obtain ⟨hsucceeds, -, hexact⟩ := allocate_exact _ _ types countdown_declared htypes
  obtain ⟨t, ht⟩ := hsucceeds.mpr hfits
  obtain ⟨crowdedTypes, hcrowdedTypes⟩ := exists_ok_of_isOk hcrowdedChecked
  obtain ⟨hcrowdedSucceeds, hfails, -⟩ := allocate_exact _ _ crowdedTypes hcrowded hcrowdedTypes
  refine ⟨⟨t, ht, hexact t ht⟩, hcrowded, hcrowdedChecked, ?_⟩
  rcases hrun : crowded.allocate.runOn crowdedTables with ⟨e | ⟨⟩, t'⟩
  · obtain ⟨q, hq, rfl⟩ := hfails e t' hrun
    rw [hq, Option.map_some, Option.some.injEq, Prod.mk.injEq] at hblame
    rw [hblame.1, hblame.2]
  · have hnone := Tables.oversized?_eq_none.mpr (hcrowdedSucceeds.mp ⟨t', hrun⟩)
    rw [hnone] at hblame
    cases hblame

end TreeCompiler
