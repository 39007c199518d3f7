import TreeCompiler.Proofs.Frame.Variables

/-!
# What laying out frames does

Laying out the frames of a program that is declared fails with the first fault of its procedures, in
the order in which they are gone through (`Program.frameFault?`), and a fault depends neither on places
nor on layouts.  If there is none, the tables place every variable of every procedure, the outgoing area
of a procedure has room for the arguments of all its callees (`Tables.LaysOut`), and nothing but places
and layouts changes (`Program.allocate_faults`).  The only fault that a well-typed program can have is a
frame that is too large (`Program.allocate_fits`).
-/

namespace TreeCompiler

variable {names : List (String × ValueShape)} {procedures : List Procedure} {t t' : Tables}
  {id j : ScopeId} {name n : String}

/-! ### Sizes of argument areas -/

/-- The bytes of the argument area of a global procedure, and none if there is no such procedure. -/
def Tables.argumentBytes (t : Tables) (name : String) : Nat :=
  Word.size * ((t.procedure? name).map fun e => e.parameters.length).getD 0

/-- The bytes of the area for the arguments of callees. -/
def Tables.outgoingBytes (t : Tables) (calls : List (String × List Expr)) : Nat :=
  (calls.map fun c => t.argumentBytes c.1).foldr max 0

/-- The frame of a procedure fits: neither its arguments nor what it keeps below its frame pointer
take more bytes than a word can tell. -/
structure Procedure.Fits (names : List (String × ValueShape)) (t : Tables) (q : Procedure) :
    Prop where
  arguments : (Word.size * q.parameters.length : Int) ≤ Word.max
  frame : (q.localBytes names + t.outgoingBytes q.calls + 2 * Word.size : Int) ≤ Word.max

/-- The size that the argument area of a global procedure should have. -/
def Tables.expectedArea? (t : Tables) (name : String) : Option Int :=
  ((t.procedure? name).map fun e => e.parameters.length).map fun (n : Nat) => (Word.size : Int) * n

/-- The argument area of a procedure does not depend on places. -/
lemma Tables.argumentBytes_of_erase (h : t'.erase = t.erase) (name : String) :
    t'.argumentBytes name = t.argumentBytes name := by
  unfold argumentBytes
  rw [length_parameters_of_erase h]

/-- The area for the arguments of callees does not depend on places. -/
lemma Tables.outgoingBytes_of_erase (h : t'.erase = t.erase) (calls : List (String × List Expr)) :
    t'.outgoingBytes calls = t.outgoingBytes calls := by
  unfold outgoingBytes
  simp only [argumentBytes_of_erase h]

/-- The sizes that argument areas should have do not depend on places. -/
lemma Tables.expectedArea?_of_erase (h : t'.erase = t.erase) : t'.expectedArea? = t.expectedArea? := by
  funext name
  unfold expectedArea?
  rw [length_parameters_of_erase h]

/-- A procedure has an argument area if and only if it is a global one. -/
lemma Tables.expectedArea?_eq_some {size : Int} : t.expectedArea? name = some size ↔
    ∃ e, t.binding? .global name = some (.procedure e) ∧ size = Word.size * e.parameters.length := by
  unfold expectedArea?
  simp only [Option.map_eq_some_iff, ← procedure?_eq_some]
  constructor
  · rintro ⟨n, ⟨e, he, rfl⟩, rfl⟩
    exact ⟨e, he, rfl⟩
  · rintro ⟨e, he, rfl⟩
    exact ⟨_, ⟨e, he, rfl⟩, rfl⟩

/-- The size that an argument area should have is that of the parameters, and there is no area of other
names. -/
lemma Tables.expectedArea?_getD : (t.expectedArea? name).getD 0 = t.argumentBytes name := by
  unfold expectedArea? argumentBytes
  cases t.procedure? name <;> simp

/-! ### Areas for outgoing arguments -/

/-- Grows an area for the arguments of one more callee, or notes that the callee's area is unknown. -/
def growArea (area? : String → Option Int) :
    OutgoingArea × Option String → String × List Expr → OutgoingArea × Option String
  | (area, missing), (callee, _) =>
    match area? callee with
    | some size => (.bytes (max size area.size), missing)
    | none => (area, some callee)

/-- The area that calls need, if the argument areas of the callees are so large, and the last callee
that has none. -/
def outgoingAreaOf (area? : String → Option Int) (calls : List (String × List Expr)) :
    OutgoingArea × Option String :=
  calls.foldl (growArea area?) (.noCalls, none)

/-- The area that is allocated for calls depends on the argument areas of the callees only. -/
lemma Tables.outgoingArea_eq (t : Tables) (calls : List (String × List Expr)) :
    t.outgoingArea calls = outgoingAreaOf t.argumentArea? calls := rfl

section
variable {area? : String → Option Int} {calls : List (String × List Expr)} {start : OutgoingArea}
  {missing : Option String}

/-- An unknown callee is noted if and only if there is one. -/
lemma foldl_growArea_missing : (calls.foldl (growArea area?) (start, missing)).2 = none ↔
    missing = none ∧ ∀ c ∈ calls, (area? c.1).isSome = true := by
  induction calls generalizing start missing with
  | nil => simp
  | cons c calls ih =>
    rw [List.foldl_cons, List.forall_mem_cons, growArea]
    cases hsize : area? c.1 with
    | some size =>
      dsimp only
      rw [ih]
      simp
    | none =>
      dsimp only
      rw [ih]
      simp

/-- Growing an area does not take it away, and there is one after a call to a known callee. -/
lemma foldl_growArea_noCalls (hknown : ∀ c ∈ calls, (area? c.1).isSome = true) :
    (calls.foldl (growArea area?) (start, missing)).1 = .noCalls ↔ start = .noCalls ∧ calls = [] := by
  induction calls generalizing start missing with
  | nil => simp
  | cons c calls ih =>
    obtain ⟨hc, hcalls⟩ := List.forall_mem_cons.mp hknown
    obtain ⟨size, hsize⟩ := Option.isSome_iff_exists.mp hc
    rw [List.foldl_cons, growArea, hsize]
    dsimp only
    rw [ih hcalls]
    simp

/-- An area that has grown is as large as the largest argument area of the callees. -/
lemma foldl_growArea_size {bytes : String → Nat} (hbytes : ∀ name, (area? name).getD 0 = bytes name)
    (hstart : 0 ≤ start.size) : (calls.foldl (growArea area?) (start, missing)).1.size =
      max start.size ((calls.map fun c => bytes c.1).foldr max 0 : Nat) := by
  induction calls generalizing start missing with
  | nil => exact (Int.max_eq_left hstart).symm
  | cons c calls ih =>
    have hc := hbytes c.1
    rw [List.foldl_cons, List.map_cons, List.foldr_cons, growArea]
    cases hsize : area? c.1 with
    | some size =>
      have hgrown : (OutgoingArea.bytes (max size start.size)).size = max size start.size := rfl
      rw [hsize, Option.getD_some] at hc
      dsimp only
      rw [ih (by omega), hgrown]
      omega
    | none =>
      rw [hsize, Option.getD_none] at hc
      dsimp only
      rw [ih hstart]
      omega

end

/-- The sizes of the argument areas of callees, each of which is a global procedure. -/
def Tables.CalleeSizes (t : Tables) (calls : List (String × List Expr)) (sizes : List Nat) : Prop :=
  List.Forall₂ (fun c size => ∃ callee, t.binding? .global c.1 = some (.procedure callee) ∧
    size = Word.size * callee.parameters.length) calls sizes

/-- The sizes of the argument areas of callees do not depend on places. -/
lemma Tables.CalleeSizes.of_erase {calls : List (String × List Expr)} {sizes : List Nat}
    (h : t.CalleeSizes calls sizes) (herase : t'.erase = t.erase) : t'.CalleeSizes calls sizes := by
  refine List.Forall₂.imp (fun c size hc => ?_) h
  obtain ⟨callee, hcallee, hsize⟩ := hc
  obtain ⟨callee', hcallee', hentry⟩ := Tables.binding?_procedure_of_erase herase hcallee
  have hlength : callee'.parameters.length = callee.parameters.length := by
    rw [← List.length_map Slot.erase, ProcedureEntry.parameters_eq_of_erase hentry,
      List.length_map]
  exact ⟨callee', hcallee', hlength ▸ hsize⟩

/-- The area for the arguments of callees is as large as the sizes of their areas say. -/
lemma Tables.CalleeSizes.outgoingBytes_eq {calls : List (String × List Expr)} {sizes : List Nat}
    (h : t.CalleeSizes calls sizes) : t.outgoingBytes calls = sizes.foldr max 0 := by
  unfold outgoingBytes
  induction h with
  | nil => rfl
  | cons hc _ ih =>
    obtain ⟨callee, hcallee, rfl⟩ := hc
    rw [List.map_cons, List.foldr_cons, List.foldr_cons, ih]
    unfold argumentBytes
    rw [Tables.procedure?_eq_some.mpr hcallee]
    rfl

/-- Callees whose argument areas are known are global procedures. -/
lemma Tables.calleeSizes_of_isSome {calls : List (String × List Expr)}
    (h : ∀ c ∈ calls, (t.expectedArea? c.1).isSome = true) :
    t.CalleeSizes calls (calls.map fun c => t.argumentBytes c.1) := by
  unfold CalleeSizes
  rw [List.forall₂_map_right_iff, List.forall₂_same]
  intro c hc
  obtain ⟨size, hsize⟩ := Option.isSome_iff_exists.mp (h c hc)
  obtain ⟨e, he, -⟩ := expectedArea?_eq_some.mp hsize
  refine ⟨e, he, ?_⟩
  unfold argumentBytes
  rw [procedure?_eq_some.mpr he]
  rfl

/-- The argument areas of all global procedures have the sizes that they should have. -/
def Tables.KnowsAreas (t : Tables) : Prop :=
  ∀ name e, t.binding? .global name = some (.procedure e) →
    e.layout.arguments = some (Word.size * e.parameters.length : Int)

/-- Argument areas that are known are those that are expected. -/
lemma Tables.KnowsAreas.argumentArea?_eq (h : t.KnowsAreas) : t.argumentArea? = t.expectedArea? := by
  funext name
  unfold argumentArea? expectedArea?
  cases he : t.procedure? name with
  | none => rfl
  | some e => exact h name e (procedure?_eq_some.mp he)

/-- Why the area for outgoing arguments of a procedure cannot be allocated: a callee is unknown, or the
frame is too large. -/
def Procedure.outgoingFault? (names : List (String × ValueShape)) (t : Tables) (q : Procedure) :
    Option FrameError :=
  match (outgoingAreaOf t.expectedArea? q.calls).2 with
  | some callee => some (.missingArgumentArea callee)
  | none =>
    if (q.localBytes names + t.outgoingBytes q.calls + 2 * Word.size : Int) ≤ Word.max then none
    else some (.frameTooLarge q.name)

/-- Why the area for outgoing arguments cannot be allocated does not depend on places. -/
lemma Procedure.outgoingFault?_of_erase {q : Procedure} (h : t'.erase = t.erase) :
    q.outgoingFault? names t' = q.outgoingFault? names t := by
  unfold outgoingFault?
  rw [Tables.expectedArea?_of_erase h, Tables.outgoingBytes_of_erase h]

/-- If all callees are known, the area for their arguments can be allocated if the frame fits. -/
lemma Procedure.outgoingFault?_of_known {q : Procedure}
    (h : ∀ c ∈ q.calls, (t.expectedArea? c.1).isSome = true) : q.outgoingFault? names t =
      if (q.localBytes names + t.outgoingBytes q.calls + 2 * Word.size : Int) ≤ Word.max then none
      else some (.frameTooLarge q.name) := by
  have hnone : (outgoingAreaOf t.expectedArea? q.calls).2 = none :=
    foldl_growArea_missing.mpr ⟨rfl, h⟩
  unfold outgoingFault?
  rw [hnone]

/-- The frame of a procedure is laid out: its variables have their places, the area for outgoing
arguments is as large as the largest argument area of its callees, and its size is known. -/
structure Tables.LaysOut (names : List (String × ValueShape)) (t : Tables) (q : Procedure)
    (e : ProcedureEntry) : Prop extends Tables.PlacesVariables names t q e where
  outgoing : ∃ area sizes, e.layout.outgoing = some area ∧ (q.calls = [] ↔ area = .noCalls) ∧
    t.CalleeSizes q.calls sizes ∧ area.size = (sizes.foldr max 0 : Nat)
  frameSize : ∃ size, e.layout.frameSize = some size
  returnAddress : ∃ offset, e.layout.oldReturnAddress = some offset

/-- The area that calls of known procedures need. -/
lemma Tables.outgoingAreaOf_eq {calls : List (String × List Expr)} {area : OutgoingArea}
    (h : outgoingAreaOf t.expectedArea? calls = (area, none)) :
    (∀ c ∈ calls, (t.expectedArea? c.1).isSome = true) ∧ (calls = [] ↔ area = .noCalls) ∧
      area.size = t.outgoingBytes calls := by
  have hknown : ∀ c ∈ calls, (t.expectedArea? c.1).isSome = true :=
    (foldl_growArea_missing.mp (congrArg Prod.snd h)).2
  have hnone : (outgoingAreaOf t.expectedArea? calls).1 = .noCalls ↔ _ :=
    foldl_growArea_noCalls hknown
  have hsize : (outgoingAreaOf t.expectedArea? calls).1.size =
      max OutgoingArea.noCalls.size (t.outgoingBytes calls) :=
    foldl_growArea_size (fun _ => expectedArea?_getD) (Int.le_refl 0)
  rw [h] at hnone hsize
  exact ⟨hknown, by simpa [iff_comm] using hnone,
    hsize.trans (Int.max_eq_right (Int.natCast_nonneg _))⟩

/-- The area for the arguments of callees is laid out, unless a callee is unknown or the frame is too
large. -/
lemma Procedure.allocateOutgoing_ends {q : Procedure} {e : ProcedureEntry}
    (he : t.PlacesVariables names q e) (hinside : e.scope ≠ .global) (hareas : t.KnowsAreas) :
    q.allocateOutgoing.Ends t
      (fun _ t' => q.outgoingFault? names t = none ∧ t.AgreeOutside t' .global [q.name] ∧
        ∃ e', t'.LaysOut names q e')
      (fun cause _ => q.outgoingFault? names t = some cause) := by
  unfold allocateOutgoing outgoingFault?
  rw [Step.ends_bind, Step.ends_get, Tables.outgoingArea_eq, hareas.argumentArea?_eq]
  rcases hfound : outgoingAreaOf t.expectedArea? q.calls with ⟨area, missing⟩
  cases missing with
  | some callee => exact rfl
  | none =>
    obtain ⟨hknown, hnone, hsize⟩ := Tables.outgoingAreaOf_eq hfound
    dsimp only
    rw [Tables.procedure?_eq_some.mpr he.bound]
    dsimp only
    rw [Step.ends_bind, Step.ends_set]
    set layout : FrameLayout := { e.layout with outgoing := some area }
    have hlarge : (layout.frameSize.isNone || layout.oldReturnAddress.isNone) = true ↔ _ :=
      FrameLayout.tooLarge_iff he.locals rfl (by omega)
    have hsaved : FrameLayout.savedRegisters = 2 * Word.size := rfl
    rw [hsize, hsaved] at hlarge
    split
    · rename_i hblame
      exact if_neg (Int.not_le.mpr (hlarge.mp hblame))
    · rename_i hfits
      have hagree : t.AgreeOutside (t.modifyProcedure q.name fun p => { p with layout }) .global
          [q.name] := Tables.agreeOutside_modifyProcedure fun _ => rfl
      have hsizes := (Tables.calleeSizes_of_isSome hknown).of_erase hagree.erase
      refine ⟨if_pos (Int.not_lt.mp (hlarge.not.mp hfits)), hagree, { e with layout }, ?_⟩
      rw [Bool.or_eq_true, not_or, Bool.not_eq_true, Bool.not_eq_true, Option.isNone_eq_false_iff,
        Option.isNone_eq_false_iff, Option.isSome_iff_exists, Option.isSome_iff_exists] at hfits
      exact
        { bound := Tables.binding?_modifyProcedure_self he.bound
          arguments := he.arguments
          locals := he.locals
          places := Tables.forall₂_places_agree he.places hagree (.inl hinside)
          outgoing := ⟨area, _, rfl, hnone, hsizes, hsize⟩
          frameSize := hfits.1
          returnAddress := hfits.2 }

/-! ### Programs -/

/-- What is known about a procedure's variables stays known while other entries change. -/
lemma Tables.PlacesVariables.keep {q : Procedure} {e : ProcedureEntry}
    (h : t.PlacesVariables names q e)
    (hbound : t'.binding? .global q.name = t.binding? .global q.name)
    (hscope : ∀ n, t'.binding? e.scope n = t.binding? e.scope n) :
    t'.PlacesVariables names q e := by
  refine ⟨hbound.trans h.bound, h.arguments, h.locals, h.places.imp fun d offset hplace => ?_⟩
  obtain ⟨slot, hslot, hoffset⟩ := hplace
  exact ⟨slot, (hscope d.name).trans hslot, hoffset⟩

/-- The argument areas of the runtime library are known. -/
def Tables.PlacesRuntime (t : Tables) (l : List RuntimeProcedure) : Prop :=
  ∀ r ∈ l, ∃ e, t.binding? .global r.name = some (.procedure e) ∧ e.PlacesArguments

/-- The argument areas of the runtime library are laid out. -/
lemma allocateRuntime_ends (h : t.Holds names procedures) :
    (runtimeProcedures.forM fun r => Step.nowhere (discard (allocateArguments r.name))).Ends t
      (fun _ t' => t'.erase = t.erase ∧ t'.PlacesRuntime runtimeProcedures) (fun _ _ => False) := by
  refine Step.ends_forM (fun done t' => t'.erase = t.erase ∧ t'.PlacesRuntime done)
    runtimeProcedures ⟨rfl, fun _ hr => absurd hr List.not_mem_nil⟩
    fun done r rest hl t₁ h₁ => ?_
  obtain ⟨herase, hdone⟩ := h₁
  have hr : r ∈ runtimeProcedures := hl ▸ List.mem_append_right _ List.mem_cons_self
  obtain ⟨e, he⟩ := h.runtime r hr
  obtain ⟨e₁, -, he₁⟩ := he.of_erase herase.symm
  have hfew : ∀ r ∈ runtimeProcedures, (Word.size * r.references.length : Int) ≤ Word.max := by decide
  rw [Step.ends_nowhere, Step.ends_discard]
  refine (allocateArguments_ends he₁.1 he₁.passingSize_eq).mono (fun _ t₂ h₂ => ?_)
    fun _ _ hcause => ?_
  rotate_left
  · have hlarge := hcause.2.1
    rw [he₁.2.2.length_eq] at hlarge
    exact absurd (hfew r hr) (Int.not_le.mpr hlarge)
  obtain ⟨-, herase₂, hframe, ⟨e₂, hbound₂, harguments⟩, -⟩ := h₂
  refine ⟨herase₂.trans herase, fun r' hr' => ?_⟩
  rcases List.mem_append.mp hr' with hr' | hr'
  · have hne : r'.name ≠ r.name := by
      have hnodup := (List.nodup_append.mp h.nodup).1
      rw [hl, List.map_append, List.map_cons, List.nodup_append] at hnodup
      exact hnodup.2.2 _ (List.mem_map_of_mem hr') _ List.mem_cons_self
    obtain ⟨e', he', hplaces⟩ := hdone r' hr'
    exact ⟨e', (hframe _ _ (.inr hne)).trans he', hplaces⟩
  · rw [List.mem_singleton] at hr'
    subst hr'
    exact ⟨e₂, hbound₂, harguments⟩

/-- Different procedures of a program have different names, also from those of the runtime
library. -/
lemma Tables.Holds.name_ne (h : t.Holds names procedures) {done rest : List Procedure} {q : Procedure}
    (hl : procedures = done ++ q :: rest) :
    (∀ r ∈ runtimeProcedures, r.name ≠ q.name) ∧ ∀ q' ∈ done, q'.name ≠ q.name := by
  obtain ⟨-, hnodup, hdisjoint⟩ := List.nodup_append.mp h.nodup
  have hq : q ∈ procedures := hl ▸ List.mem_append_right _ List.mem_cons_self
  refine ⟨fun r hr => hdisjoint _ (List.mem_map_of_mem hr) _ (List.mem_map_of_mem hq), ?_⟩
  rw [hl, List.map_append, List.map_cons, List.nodup_append] at hnodup
  exact fun q' hq' => hnodup.2.2 _ (List.mem_map_of_mem hq') _ List.mem_cons_self

/-- The first fault of the variables of procedures, at the line of the procedure. -/
def firstVariablesFault? (names : List (String × ValueShape)) (procedures : List Procedure) :
    Option (Located FrameError) :=
  procedures.findSome? fun q => (q.variablesFault? names).map (.atLine q.mark.line)

/-- The variables of all procedures get their places, unless one of them has a fault. -/
lemma allocateVariables_ends (h : t.Holds names procedures)
    (hruntime : t.PlacesRuntime runtimeProcedures) :
    (procedures.forM fun q => Step.atLine q.mark.line q.allocateVariables).Ends t
      (fun _ t' => firstVariablesFault? names procedures = none ∧ t'.erase = t.erase ∧
        t'.PlacesRuntime runtimeProcedures ∧ ∀ q ∈ procedures, ∃ e, t'.PlacesVariables names q e)
      (fun e _ => firstVariablesFault? names procedures = some e) := by
  refine Step.ends_forM_findSome (fun done t' => t'.erase = t.erase ∧
      t'.PlacesRuntime runtimeProcedures ∧ ∀ q ∈ done, ∃ e, t'.PlacesVariables names q e) procedures
    ⟨rfl, hruntime, fun _ hq => absurd hq List.not_mem_nil⟩ fun done q rest hl t₁ h₁ => ?_
  obtain ⟨herase, hruntime₁, hdone⟩ := h₁
  have hholds : t₁.Holds names procedures := h.of_erase herase.symm
  have hq : q ∈ procedures := hl ▸ List.mem_append_right _ List.mem_cons_self
  obtain ⟨e, he⟩ := hholds.declared q hq
  have hinside := (hholds.inside _ _ he.bound).1
  obtain ⟨hneRuntime, hneDone⟩ := hholds.name_ne hl
  rw [Step.ends_atLine]
  refine (q.allocateVariables_ends hholds.wellFormed he hinside).mono (fun _ t₂ h₂ => ?_)
    fun cause _ hcause => by rw [hcause.2.fault, hcause.1]; rfl
  obtain ⟨hfault, herase₂, hframe, e₂, he₂⟩ := h₂
  refine ⟨by rw [hfault]; rfl, herase₂.trans herase, fun r hr => ?_, fun q' hq' => ?_⟩
  · obtain ⟨e', he', hplaces⟩ := hruntime₁ r hr
    exact ⟨e', (hframe _ _ hinside.symm (.inr (hneRuntime r hr))).trans he', hplaces⟩
  · rcases List.mem_append.mp hq' with hq' | hq'
    · obtain ⟨e', he'⟩ := hdone q' hq'
      have hother : e'.scope ≠ e.scope := fun heq =>
        hneDone q' hq' (hholds.separate _ _ _ _ he'.bound he.bound heq)
      have hinside' := (hholds.inside _ _ he'.bound).1
      exact ⟨e', he'.keep (hframe _ _ hinside.symm (.inr (hneDone q' hq')))
        fun n => hframe _ n hother (.inl hinside')⟩
    · rw [List.mem_singleton] at hq'
      subst hq'
      exact ⟨e₂, he₂⟩

/-- Once the variables of all procedures have their places, all argument areas are known. -/
lemma Tables.Holds.knowsAreas (h : t.Holds names procedures)
    (hruntime : t.PlacesRuntime runtimeProcedures)
    (hplaces : ∀ q ∈ procedures, ∃ e, t.PlacesVariables names q e) : t.KnowsAreas := by
  intro name e he
  rcases h.origin name e he with ⟨r, hr, rfl⟩ | ⟨q, hq, rfl⟩
  · obtain ⟨e', he', harguments⟩ := hruntime r hr
    rw [he] at he'
    cases he'
    exact harguments.2
  · obtain ⟨e', he'⟩ := hplaces q hq
    have hbound := he'.bound
    rw [he] at hbound
    cases hbound
    exact he'.arguments.2

/-- A frame that is laid out stays so while other entries change. -/
lemma Tables.LaysOut.agree {q : Procedure} {e : ProcedureEntry} (h : t.LaysOut names q e)
    (hinside : e.scope ≠ .global) (hagree : t.AgreeOutside t' .global [name])
    (hne : q.name ≠ name) : t'.LaysOut names q e := by
  obtain ⟨area, sizes, harea, hnone, hsizes, hsize⟩ := h.outgoing
  have hkeep := h.keep (hagree.binding _ _ (.inr (by simpa using hne)))
    fun n => hagree.binding _ _ (.inl hinside)
  exact { hkeep with
    outgoing := ⟨area, sizes, harea, hnone, hsizes.of_erase hagree.erase, hsize⟩
    frameSize := h.frameSize
    returnAddress := h.returnAddress }

/-- The first fault of the areas for outgoing arguments of procedures, at the line of the procedure. -/
def firstOutgoingFault? (names : List (String × ValueShape)) (t : Tables)
    (procedures : List Procedure) : Option (Located FrameError) :=
  procedures.findSome? fun q => (q.outgoingFault? names t).map (.atLine q.mark.line)

/-- The areas for the arguments of callees are laid out, unless one of them has a fault. -/
lemma allocateOutgoing_ends (h : t.Holds names procedures)
    (hruntime : t.PlacesRuntime runtimeProcedures)
    (hplaces : ∀ q ∈ procedures, ∃ e, t.PlacesVariables names q e) :
    (procedures.forM fun q => Step.atLine q.mark.line q.allocateOutgoing).Ends t
      (fun _ t' => firstOutgoingFault? names t procedures = none ∧ t'.erase = t.erase ∧
        t'.PlacesRuntime runtimeProcedures ∧ ∀ q ∈ procedures, ∃ e, t'.LaysOut names q e)
      (fun e _ => firstOutgoingFault? names t procedures = some e) := by
  refine (Step.ends_forM_findSome (fun done t' => t'.erase = t.erase ∧
      t'.PlacesRuntime runtimeProcedures ∧ (∀ q ∈ procedures, ∃ e, t'.PlacesVariables names q e) ∧
      ∀ q ∈ done, ∃ e, t'.LaysOut names q e) procedures
    ⟨rfl, hruntime, hplaces, fun _ hq => absurd hq List.not_mem_nil⟩
    fun done q rest hl t₁ h₁ => ?_).mono (fun _ _ h => ⟨h.1, h.2.1, h.2.2.1, h.2.2.2.2⟩)
    fun _ _ h => h
  obtain ⟨herase, hruntime₁, hplaces₁, hdone⟩ := h₁
  have hq : q ∈ procedures := hl ▸ List.mem_append_right _ List.mem_cons_self
  have hholds : t₁.Holds names procedures := h.of_erase herase.symm
  obtain ⟨e, he⟩ := hplaces₁ q hq
  have hinside := (hholds.inside _ _ he.bound).1
  obtain ⟨hneRuntime, hneDone⟩ := hholds.name_ne hl
  have hfault : q.outgoingFault? names t₁ = q.outgoingFault? names t :=
    Procedure.outgoingFault?_of_erase herase
  rw [Step.ends_atLine]
  refine (q.allocateOutgoing_ends he hinside (hholds.knowsAreas hruntime₁ hplaces₁)).mono
    (fun _ t₂ h₂ => ?_) fun cause _ hcause => by rw [← hfault, hcause]; rfl
  obtain ⟨hnone, hagree, e₂, he₂⟩ := h₂
  refine ⟨by rw [← hfault, hnone]; rfl, hagree.erase.trans herase, fun r hr => ?_,
    fun q' hq' => ?_, fun q' hq' => ?_⟩
  · obtain ⟨er, her, harguments⟩ := hruntime₁ r hr
    refine ⟨er, ?_, harguments⟩
    rw [hagree.binding _ _ (.inr (by simpa using hneRuntime r hr))]
    exact her
  · by_cases hname : q'.name = q.name
    · have hsame : q' = q := by
        have hnodup := (List.nodup_append.mp hholds.nodup).2.1
        exact List.inj_on_of_nodup_map hnodup hq' hq hname
      subst hsame
      exact ⟨e₂, he₂.toPlacesVariables⟩
    · obtain ⟨e', he'⟩ := hplaces₁ q' hq'
      have hinside' := (hholds.inside _ _ he'.bound).1
      exact ⟨e', he'.keep (hagree.binding _ _ (.inr (by simpa using hname)))
        fun n => hagree.binding _ _ (.inl hinside')⟩
  · rcases List.mem_append.mp hq' with hq' | hq'
    · obtain ⟨e', he'⟩ := hdone q' hq'
      exact ⟨e', he'.agree (hholds.inside _ _ he'.bound).1 hagree (hneDone q' hq')⟩
    · rw [List.mem_singleton] at hq'
      subst hq'
      exact ⟨e₂, he₂⟩

/-- The first fault that keeps the frames of a program from being laid out.  All variables are placed
before the areas for outgoing arguments are allocated. -/
def Program.frameFault? (t : Tables) (p : Program) : Option (Located FrameError) :=
  (firstVariablesFault? p.typeNames p.procedures).or
    (firstOutgoingFault? p.typeNames t p.procedures)

/-- The first fault does not depend on places. -/
lemma Program.frameFault?_of_erase {p : Program} (h : t'.erase = t.erase) :
    p.frameFault? t' = p.frameFault? t := by
  unfold frameFault? firstOutgoingFault?
  simp only [Procedure.outgoingFault?_of_erase h]

/-- Laying out the frames of a program that is declared fails with the first fault.  If there is none,
all frames are laid out, and nothing but places and layouts has changed. -/
theorem Program.allocate_faults {p : Program} (h : t.BelongTo p) :
    p.allocate.Ends t
      (fun _ t' => p.frameFault? t = none ∧ t'.erase = t.erase ∧
        t'.PlacesRuntime runtimeProcedures ∧ ∀ q ∈ p.procedures, ∃ e, t'.LaysOut p.typeNames q e)
      (fun e _ => p.frameFault? t = some e) := by
  unfold allocate
  rw [Step.ends_bind]
  refine (allocateRuntime_ends h).mono (fun _ t₁ h₁ => ?_) fun _ _ h => h.elim
  obtain ⟨herase₁, hruntime₁⟩ := h₁
  rw [Step.ends_bind, ← frameFault?_of_erase herase₁, frameFault?]
  refine (allocateVariables_ends (h.of_erase herase₁.symm) hruntime₁).mono (fun _ t₂ h₂ => ?_)
    fun e _ he => by rw [he, Option.some_or]
  obtain ⟨hvariables, herase₂, hruntime₂, hplaces₂⟩ := h₂
  have herase : t₂.erase = t.erase := herase₂.trans herase₁
  have hfault : firstOutgoingFault? p.typeNames t₂ p.procedures =
      firstOutgoingFault? p.typeNames t₁ p.procedures := by
    unfold firstOutgoingFault?
    simp only [Procedure.outgoingFault?_of_erase herase₂]
  rw [hvariables, Option.none_or, ← hfault]
  refine (allocateOutgoing_ends (h.of_erase herase.symm) hruntime₂ hplaces₂).mono
    (fun _ t₃ h₃ => ?_) fun _ _ h => h
  obtain ⟨houtgoing, herase₃, hruntime₃, hlaysOut⟩ := h₃
  exact ⟨houtgoing, herase₃.trans herase, hruntime₃, hlaysOut⟩

/-! ### Well-typed programs -/

/-- The calls of a list of statements are those of the statements. -/
lemma mem_callsOf {c : String × List Expr} {l : List Stmt} :
    c ∈ callsOf l ↔ ∃ s ∈ l, c ∈ s.calls := by
  induction l with
  | nil => simp [callsOf]
  | cons s rest ih =>
    rw [callsOf, List.mem_append, ih]
    simp

/-- The calls of a well-typed statement are calls of procedures that accept the arguments. -/
lemma Stmt.WellTyped.callee {scope : ScopeId} {s : Stmt} (h : s.WellTyped t scope) :
    ∀ c ∈ s.calls, ∃ callee, t.lookup scope c.1 = some (.procedure callee) ∧
      List.Forall₂ (Slot.Accepts t scope) callee.parameters c.2 := by
  induction h with
  | empty => exact fun _ hc => absurd hc List.not_mem_nil
  | block _ ih =>
    intro c hc
    obtain ⟨s, hs, hc⟩ := mem_callsOf.mp hc
    exact ih s hs c hc
  | assign => exact fun _ hc => absurd hc List.not_mem_nil
  | ifThen _ _ ih => exact ih
  | ifThenElse _ _ _ ihThen ihElse =>
    intro c hc
    exact (List.mem_append.mp hc).elim (ihThen c) (ihElse c)
  | loop _ _ ih => exact ih
  | call hcallee haccepts =>
    intro c hc
    rw [Stmt.calls, List.mem_singleton] at hc
    subst hc
    exact ⟨_, hcallee, haccepts⟩

/-- The callees of a well-typed procedure are known. -/
lemma Tables.Declares.callees {q : Procedure} {e : ProcedureEntry} (he : t.Declares names q e)
    (h : t.Holds names procedures) (htyped : q.WellTyped t) :
    ∀ c ∈ q.calls, (t.expectedArea? c.1).isSome = true := by
  intro c hc
  obtain ⟨entry, hentry, hbody⟩ := htyped
  rw [Tables.procedure?_eq_some.mpr he.bound] at hentry
  cases hentry
  obtain ⟨s, hs, hc⟩ := mem_callsOf.mp hc
  obtain ⟨callee, hcallee, -⟩ := (hbody s hs).callee c hc
  have hglobal := he.lookup_procedure h hcallee
  rw [Tables.expectedArea?_eq_some.mpr ⟨callee, hglobal, rfl⟩]
  rfl

/-- The areas for outgoing arguments of a well-typed program can be allocated if the frames fit. -/
lemma Tables.Holds.outgoingFault?_eq (h : t.Holds names procedures) {q : Procedure}
    (hq : q ∈ procedures) (htyped : q.WellTyped t) : q.outgoingFault? names t =
      if (q.localBytes names + t.outgoingBytes q.calls + 2 * Word.size : Int) ≤ Word.max then none
      else some (.frameTooLarge q.name) := by
  obtain ⟨e, he⟩ := h.declared q hq
  exact Procedure.outgoingFault?_of_known (he.callees h htyped)

/-- Laying out the frames of a well-typed program fails if and only if some frame does not fit.
Otherwise all frames are laid out, and nothing but places and layouts has changed. -/
theorem Program.allocate_fits {p : Program} (h : t.BelongTo p)
    (htyped : ∀ q ∈ p.procedures, q.WellTyped t) :
    p.allocate.Ends t
      (fun _ t' => (t'.erase = t.erase ∧ t'.PlacesRuntime runtimeProcedures ∧
        ∀ q ∈ p.procedures, ∃ e, t'.LaysOut p.typeNames q e) ∧
        ∀ q ∈ p.procedures, q.Fits p.typeNames t)
      (fun e _ => ∃ q ∈ p.procedures, e.cause = .frameTooLarge q.name ∧ ¬q.Fits p.typeNames t) := by
  refine (allocate_faults h).mono (fun _ t' h' => ⟨h'.2, fun q hq => ?_⟩) fun e _ he => ?_
  · obtain ⟨hvariables, houtgoing⟩ := Option.or_eq_none_iff.mp h'.1
    have hvariable := List.findSome?_eq_none_iff.mp hvariables q hq
    have hcall := List.findSome?_eq_none_iff.mp houtgoing q hq
    rw [Option.map_eq_none_iff] at hvariable hcall
    rw [h.outgoingFault?_eq hq (htyped q hq), ite_eq_left_iff] at hcall
    exact ⟨(Procedure.variablesFault?_eq_none.mp hvariable).1,
      Classical.byContradiction fun hlarge => by cases hcall hlarge⟩
  · rcases Option.or_eq_some_iff.mp he with he | ⟨-, he⟩
    · obtain ⟨q, hq, hfault⟩ := List.exists_of_findSome?_eq_some he
      obtain ⟨cause, hcause, rfl⟩ := Option.map_eq_some_iff.mp hfault
      obtain ⟨rfl, hlarge⟩ := Procedure.variablesFault?_eq_some.mp hcause
      refine ⟨q, hq, rfl, fun hfits => hlarge ⟨hfits.arguments, ?_⟩⟩
      have hframe := hfits.frame
      omega
    · obtain ⟨q, hq, hfault⟩ := List.exists_of_findSome?_eq_some he
      obtain ⟨cause, hcause, rfl⟩ := Option.map_eq_some_iff.mp hfault
      rw [h.outgoingFault?_eq hq (htyped q hq)] at hcause
      split at hcause
      · cases hcause
      · rename_i hlarge
        cases hcause
        exact ⟨q, hq, rfl, fun hfits => hlarge hfits.frame⟩

/-- Laying out the frames of a well-typed program fails only where a frame is too large.  Otherwise
all frames are laid out, and nothing but places and layouts has changed. -/
theorem Program.allocate_ends {p : Program} (h : t.BelongTo p)
    (htyped : ∀ q ∈ p.procedures, q.WellTyped t) :
    p.allocate.Ends t
      (fun _ t' => t'.erase = t.erase ∧ t'.PlacesRuntime runtimeProcedures ∧
        ∀ q ∈ p.procedures, ∃ e, t'.LaysOut p.typeNames q e)
      (fun e _ => ∃ name, e.cause = .frameTooLarge name) :=
  (allocate_fits h htyped).mono (fun _ _ h => h.1) fun _ _ ⟨q, _, hcause, _⟩ => ⟨q.name, hcause⟩

end TreeCompiler
