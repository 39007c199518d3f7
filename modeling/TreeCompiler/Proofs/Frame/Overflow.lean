import TreeCompiler.Report
import TreeCompiler.Proofs.Frame.Annotation
import TreeCompiler.Proofs.Frame.Partial

/-!
# Pictures of frames that are laid out in part

Pictures are drawn of frames whether they are laid out or not, and offsets are negated for sorting and
for printing.  The only offset for which this goes wrong is the smallest word, and the only variable
that can lie there is a local one: it does if laying out the frames has failed for its procedure, which
has local variables that take exactly as many bytes as there are negative words
(`Program.picture_negations`).  All other local variables are shown with their distance from the frame
pointer.
-/

namespace TreeCompiler

variable {names : List (String × ValueShape)} {t : Tables} {id : ScopeId} {q : Procedure} {k : Nat}

/-! ### Rows with offsets that are negated -/

/-- The offset of a row that is negated, for sorting the rows or for the note. -/
def PictureRow.negated? : PictureRow → Option Int
  | .parameter _ own _ => own
  | .localVar _ offset => offset
  | .oldReturnAddress offset => offset
  | .beyond | .frameTop | .rule | .oldFramePointer _ | .outgoing | .unknownSize | .argument _
  | .frameBottom => none

/-- The rows of parameters come from parameters. -/
lemma exists_of_mem_zipWith_parameterRow {own : Scope} {ps : List Parameter} {slots : List Slot}
    {x : Option Int × PictureRow} (h : x ∈ List.zipWith (parameterRow own) ps slots) :
    ∃ p ∈ ps, ∃ s, x = parameterRow own p s := by
  induction ps generalizing slots with
  | nil => cases h
  | cons p rest ih =>
    cases slots with
    | nil => cases h
    | cons s slots =>
      rcases List.mem_cons.mp h with rfl | h
      · exact ⟨p, List.mem_cons_self, s, rfl⟩
      · obtain ⟨p', hp', hx⟩ := ih h
        exact ⟨p', List.mem_cons_of_mem _ hp', hx⟩

/-- No offsets are negated for outgoing arguments. -/
lemma OutgoingArea.negated?_of_mem_rows {area : OutgoingArea} {row : PictureRow}
    (h : row ∈ area.rows) : row.negated? = none := by
  have harguments : ∀ n, row ∈ argumentRows n → row.negated? = none := by
    intro n hn
    induction n with
    | zero => cases hn
    | succ n ih =>
      rcases List.mem_cons.mp hn with rfl | hn
      · rfl
      · exact ih hn
  cases area with
  | noCalls => cases h
  | bytes size =>
    rw [rows] at h
    split at h
    · rcases List.mem_cons.mp h with rfl | h
      · rfl
      · exact harguments _ h
    · cases h

section
variable {e : ProcedureEntry} {own : Scope} {row : PictureRow}

/-- Offsets are negated for parameters, for local variables and for the saved return address. -/
lemma Procedure.of_mem_picture (h : row ∈ q.picture e own) :
    (∃ p ∈ q.parameters, ∃ s, row = (parameterRow own p s).2) ∨
      (∃ v ∈ q.locals, row = (localRow own v).2) ∨
      row = .oldReturnAddress e.layout.oldReturnAddress ∨ row.negated? = none := by
  unfold picture at h
  simp only [List.mem_append, List.mem_cons, List.not_mem_nil, or_false] at h
  rcases h with (((((rfl | h) | rfl) | h) | rfl | rfl) | h) | rfl | rfl
  · exact .inr (.inr (.inr rfl))
  · obtain ⟨offset, h⟩ := mem_sortRows.mp h
    obtain ⟨p, hp, s, hrow⟩ := exists_of_mem_zipWith_parameterRow h
    exact .inl ⟨p, hp, s, congrArg Prod.snd hrow⟩
  · exact .inr (.inr (.inr rfl))
  · split at h
    · cases h
    · rcases List.mem_append.mp h with h | h
      · obtain ⟨offset, h⟩ := mem_sortRows.mp h
        obtain ⟨v, hv, hrow⟩ := List.mem_map.mp h
        exact .inr (.inl ⟨v, hv, (congrArg Prod.snd hrow).symm⟩)
      · cases List.mem_singleton.mp h
        exact .inr (.inr (.inr rfl))
  · exact .inr (.inr (.inr rfl))
  · exact .inr (.inr (.inl rfl))
  · refine .inr (.inr (.inr ?_))
    split at h
    · rcases List.mem_cons.mp h with rfl | h
      · rfl
      · cases List.mem_singleton.mp h
        rfl
    · exact OutgoingArea.negated?_of_mem_rows h
  · exact .inr (.inr (.inr rfl))
  · exact .inr (.inr (.inr rfl))

/-- A row of a local variable that has an offset comes from a local variable that lies there. -/
lemma Procedure.exists_of_localVar_mem_picture {name : String} {i : Int}
    (h : .localVar name (some i) ∈ q.picture e (t.scope id)) :
    ∃ v ∈ q.locals, v.name = name ∧ t.Places id v.decl i := by
  rcases of_mem_picture h with ⟨p, -, s, heq⟩ | ⟨v, hv, heq⟩ | heq | hnone
  · cases heq
  · obtain ⟨rfl, hoffset⟩ := PictureRow.localVar.inj heq
    exact ⟨v, hv, rfl, Tables.bind_offset_eq_some.mp hoffset.symm⟩
  · cases heq
  · cases hnone

/-- Every local variable has a row. -/
lemma Procedure.localRow_mem_picture {v : LocalVar} (hv : v ∈ q.locals) :
    (localRow own v).2 ∈ q.picture e own := by
  have hmem : localRow own v ∈ q.locals.map (localRow own) := List.mem_map_of_mem hv
  have hempty : (q.locals.map (localRow own)).isEmpty = false :=
    List.isEmpty_eq_false_iff.mpr (List.ne_nil_of_mem hmem)
  have hrow : (localRow own v).2 ∈ sortRows 0 (q.locals.map (localRow own)) :=
    mem_sortRows.mpr ⟨_, hmem⟩
  unfold picture
  simp [hempty, hrow]

end

/-- The saved return address does not lie at the smallest word. -/
lemma FrameLayout.negate_oldReturnAddress {l : FrameLayout} {i : Int}
    (h : l.oldReturnAddress = some i) : Word.negate i = -i := by
  unfold oldReturnAddress at h
  obtain ⟨locals, -, h⟩ := Option.bind_eq_some_iff.mp h
  obtain ⟨depth, hdepth, h⟩ := Option.bind_eq_some_iff.mp h
  cases h
  obtain ⟨rfl, -, hmax⟩ := Word.check_eq_some_iff.mp hdepth
  refine Word.negate_of_lt ?_
  unfold Word.max at hmax
  unfold Word.min
  omega

/-! ### Where variables lie -/

/-- A variable lies at one place. -/
lemma Tables.Places.unique {d : VariableDecl} {i j : Int} (hi : t.Places id d i)
    (hj : t.Places id d j) : i = j :=
  Option.some.inj ((Tables.bind_offset_eq_some.mpr hi).symm.trans
    (Tables.bind_offset_eq_some.mpr hj))

/-- Consecutive words from an offset upward do not lie below it. -/
lemma le_of_mem_wordsFrom {offset i : Int} {n : Nat} (h : i ∈ wordsFrom offset n) : offset ≤ i := by
  obtain ⟨k, hk⟩ := List.mem_iff_getElem?.mp h
  have hlt : k < n := by
    rw [← @length_wordsFrom offset n]
    exact (List.getElem?_eq_some_iff.mp hk).1
  rw [getElem?_wordsFrom hlt] at hk
  cases hk
  exact Int.le_add_of_nonneg_right (Int.mul_nonneg (by decide) (Int.natCast_nonneg k))

/-- The bytes of the first local variables. -/
def Procedure.bytesUpTo (names : List (String × ValueShape)) (q : Procedure) (k : Nat) : Nat :=
  bytesOf names ((q.locals.take k).map LocalVar.decl)

/-- More local variables do not take fewer bytes. -/
lemma Procedure.bytesUpTo_mono {j : Nat} (h : j ≤ k) : q.bytesUpTo names j ≤ q.bytesUpTo names k := by
  unfold bytesUpTo
  rw [← Nat.min_eq_left h, ← List.take_take]
  exact bytesOf_take_le _ _

/-- The first local variables take no more bytes than all of them. -/
lemma Procedure.bytesUpTo_le : q.bytesUpTo names k ≤ q.localBytes names := bytesOf_take_le _ _

namespace Procedure.PlacedTo

/-- A parameter does not lie below the frame pointer. -/
lemma parameter_nonneg (h : q.PlacedTo names t id k) {p : Parameter} (hp : p ∈ q.parameters)
    {i : Int} (hi : t.Places id p.decl i) : 0 ≤ i := by
  obtain ⟨j, hj, hplace⟩ := exists_of_forall₂ h.parameters (List.mem_map_of_mem hp)
  rw [hi.unique hplace]
  exact le_of_mem_wordsFrom hj

/-- The place of one of the first local variables. -/
lemma places_local (h : q.PlacedTo names t id k) {j : Nat} (hj : j < k) {v : LocalVar}
    (hv : q.locals[j]? = some v) : t.Places id v.decl (-(q.bytesUpTo names (j + 1) : Int)) := by
  have hmem : ((q.locals.take k).map LocalVar.decl)[j]? = some v.decl := by
    rw [List.getElem?_map, List.getElem?_take_of_lt hj, hv]
    rfl
  obtain ⟨i, hi, hplace⟩ := forall₂_getElem? h.locals hmem
  rw [getElem?_offsetsBelow (List.getElem?_eq_some_iff.mp hmem).1, Int.zero_sub,
    ← List.map_take, List.take_take, Nat.min_eq_left hj] at hi
  cases hi
  exact hplace

/-- A local variable that has a place lies below those before it, and not beyond the smallest word. -/
lemma exists_of_local (h : q.PlacedTo names t id k) {v : LocalVar} (hv : v ∈ q.locals) {i : Int}
    (hi : t.Places id v.decl i) :
    ∃ j < q.locals.length, i = -(q.bytesUpTo names (j + 1) : Int) ∧ Word.min ≤ i := by
  rw [← List.take_append_drop k q.locals, List.mem_append] at hv
  rcases hv with hv | hv
  · obtain ⟨j, hj⟩ := List.mem_iff_getElem?.mp hv
    have hlength := (List.getElem?_eq_some_iff.mp hj).1
    rw [List.length_take, lt_min_iff] at hlength
    obtain ⟨hlt, hlength⟩ := hlength
    rw [List.getElem?_take_of_lt hlt] at hj
    have hle : q.bytesUpTo names (j + 1) ≤ q.bytesUpTo names k := bytesUpTo_mono hlt
    have hfits : Word.min ≤ -(q.bytesUpTo names k : Int) := h.fits
    refine ⟨j, hlength, hi.unique (h.places_local hlt hj), ?_⟩
    rw [hi.unique (h.places_local hlt hj)]
    omega
  · exact absurd hi (h.rest _ (List.mem_map_of_mem hv) i)

end Procedure.PlacedTo

/-! ### Programs -/

/-- The procedure whose frame does not fit. -/
def Procedure.Blamed (q : Procedure) (result : Except (Located FrameError) Unit) : Prop :=
  result = .error (.atLine q.mark.line (.frameTooLarge q.name))

/-- The arguments of a procedure fit, and the first of its local variables take exactly as many bytes as
there are negative words. -/
def Procedure.ReachesMin (names : List (String × ValueShape)) (q : Procedure) : Prop :=
  (Word.size * q.parameters.length : Int) ≤ Word.max ∧
    ∃ k ≤ q.locals.length, (q.bytesUpTo names k : Int) = -Word.min

/-- A procedure with local variables that reach the smallest word has a fault. -/
lemma Procedure.ReachesMin.large (h : q.ReachesMin names) : q.variablesFault? names ≠ none := by
  obtain ⟨-, k, -, hk⟩ := h
  intro hnone
  have hfits := (variablesFault?_eq_none.mp hnone).2
  have hle : q.bytesUpTo names k ≤ q.localBytes names := bytesUpTo_le
  unfold Word.max at hfits
  unfold Word.min at hk
  omega

/-- If the local variables reach the smallest word, one of them is placed there before the procedure's
variables turn out not to fit. -/
lemma Procedure.Halted.places_min (h : q.Halted names t id) (hmin : q.ReachesMin names) :
    ∃ v ∈ q.locals, t.Places id v.decl Word.min := by
  obtain ⟨harguments, k, hlength, hk⟩ := hmin
  rcases h with ⟨hlarge, -⟩ | ⟨-, m, hplaced, hnext⟩
  · exact absurd harguments (Int.not_le.mpr hlarge)
  cases k with
  | zero => cases hk
  | succ j =>
    have hjm : j < m := by
      rcases hnext with ⟨-, hnext⟩ | ⟨rfl, -⟩
      · by_contra hge
        have hle : q.bytesUpTo names (m + 1) ≤ q.bytesUpTo names (j + 1) := bytesUpTo_mono (by omega)
        change -(q.bytesUpTo names (m + 1) : Int) < Word.min at hnext
        omega
      · exact hlength
    have hplace := hplaced.places_local hjm (List.getElem?_eq_getElem hlength)
    rw [hk, Int.neg_neg] at hplace
    exact ⟨_, List.getElem_mem hlength, hplace⟩

/-- How far the places of a procedure have got when a program's frames have been laid out or not: it has
them all, or laying out has stopped before it, or at it. -/
def Procedure.Outcome (names : List (String × ValueShape)) (t : Tables) (id : ScopeId) (q : Procedure)
    (result : Except (Located FrameError) Unit) : Prop :=
  q.Complete names t id ∨ (t.Bare id q.decls ∧ ¬q.Blamed result) ∨
    (q.Blamed result ∧ q.Halted names t id)

namespace Procedure.Outcome

variable {result : Except (Located FrameError) Unit} {d : VariableDecl} {i : Int}

/-- If a variable has a place, the procedure has places up to some local variable. -/
lemma placedTo (h : q.Outcome names t id result) (hd : d ∈ q.decls) (hi : t.Places id d i) :
    ∃ k, q.PlacedTo names t id k := by
  rcases h with h | ⟨hbare, -⟩ | ⟨-, ⟨-, hbare⟩ | ⟨-, k, hplaced, -⟩⟩
  · exact ⟨_, h.2⟩
  · exact absurd hi (hbare d hd i)
  · exact absurd hi (hbare d hd i)
  · exact ⟨k, hplaced⟩

/-- A local variable lies at the smallest word if and only if laying out the frames has failed for its
procedure, which has local variables that reach that far. -/
lemma places_min_iff (h : q.Outcome names t id result) :
    (∃ v ∈ q.locals, t.Places id v.decl Word.min) ↔ q.Blamed result ∧ q.ReachesMin names := by
  constructor
  · rintro ⟨v, hv, hmin⟩
    have hd : v.decl ∈ q.decls := List.mem_append_right _ (List.mem_map_of_mem hv)
    obtain ⟨k, hplaced⟩ := h.placedTo hd hmin
    obtain ⟨j, hj, hbytes, -⟩ := hplaced.exists_of_local hv hmin
    have hreaches : (Word.size * q.parameters.length : Int) ≤ Word.max → q.ReachesMin names :=
      fun harguments => ⟨harguments, j + 1, hj, by rw [hbytes, Int.neg_neg]⟩
    rcases h with hcomplete | ⟨hbare, -⟩ | ⟨hblamed, ⟨-, hbare⟩ | ⟨harguments, -⟩⟩
    · have harguments := (variablesFault?_eq_none.mp hcomplete.1).1
      exact absurd hcomplete.1 (hreaches harguments).large
    · exact absurd hmin (hbare _ hd _)
    · exact absurd hmin (hbare _ hd _)
    · exact ⟨hblamed, hreaches harguments⟩
  · rintro ⟨hblamed, hreaches⟩
    rcases h with hcomplete | ⟨-, hblameless⟩ | ⟨-, hhalted⟩
    · exact absurd hcomplete.1 hreaches.large
    · exact absurd hblamed hblameless
    · exact hhalted.places_min hreaches

/-- A local variable that has a place does not lie above the frame pointer, nor beyond the smallest
word. -/
lemma local_bounds (h : q.Outcome names t id result) {v : LocalVar} (hv : v ∈ q.locals)
    (hi : t.Places id v.decl i) : Word.min ≤ i ∧ i ≤ 0 := by
  obtain ⟨k, hplaced⟩ := h.placedTo (List.mem_append_right _ (List.mem_map_of_mem hv)) hi
  obtain ⟨j, -, hbytes, hmin⟩ := hplaced.exists_of_local hv hi
  exact ⟨hmin, by omega⟩

end Procedure.Outcome

/-- How far the procedures of a program that is declared have got. -/
lemma Program.outcome {p : Program} {declared allocated : Tables}
    {result : Except (Located FrameError) Unit} (h : declared.BelongTo p)
    (hunplaced : declared.Unplaced) (hallocated : p.allocate.runOn declared = (result, allocated))
    (hq : q ∈ p.procedures) (hid : declared.Scoped q id) :
    q.Outcome p.typeNames allocated id result := by
  cases result with
  | ok => exact .inl ((allocate_places h hunplaced).of_ok hallocated q hq id hid)
  | error e =>
    rcases (allocate_places h hunplaced).of_error hallocated with hcomplete | hhalted
    · exact .inl (hcomplete q hq id hid)
    obtain ⟨done, q', rest, hl, rfl, hdone, hhalted, hrest⟩ := hhalted
    rw [hl, List.mem_append, List.mem_cons] at hq
    rcases hq with hq | rfl | hq
    · exact .inl (hdone q hq id hid)
    · exact .inr (.inr ⟨rfl, hhalted id hid⟩)
    · refine .inr (.inl ⟨hrest q hq id hid, fun hblamed => ?_⟩)
      injection hblamed with hblamed
      injection hblamed with _ hcause
      injection hcause with hname
      exact h.other_name hl q (List.mem_append_right _ hq) hname.symm

/-- What becomes of the offsets that are negated for the picture of a procedure's frame. -/
structure Procedure.Negations (names : List (String × ValueShape)) (q : Procedure)
    (result : Except (Located FrameError) Unit) (rows : List PictureRow) : Prop where
  /-- They all have a negation, apart from that of a local variable at the smallest word. -/
  exact : ∀ row ∈ rows, ∀ i, row.negated? = some i →
    Word.negate i = -i ∨ i = Word.min ∧ ∃ name, row = .localVar name (some i)
  /-- Any other local variable is shown with its distance below the frame pointer. -/
  distances : ∀ name i, .localVar name (some i) ∈ rows → i ≠ Word.min →
    ∃ distance : Nat, (distance : Int) = -i ∧
      (PictureRow.localVar name (some i)).note = "<- FP - " ++ toString distance
  /-- When there is a local variable at the smallest word. -/
  overflow : (∃ name, .localVar name (some Word.min) ∈ rows) ↔
    q.Blamed result ∧ q.ReachesMin names

/-- The offsets that are negated for the picture of a procedure's frame. -/
lemma Procedure.Outcome.negations {result : Except (Located FrameError) Unit} {e : ProcedureEntry}
    (h : q.Outcome names t e.scope result) :
    q.Negations names result (q.picture e (t.scope e.scope)) := by
  refine ⟨fun row hrow i hi => ?_, fun name i hrow hne => ?_, ?_⟩
  · rcases of_mem_picture hrow with ⟨p, hp, s, rfl⟩ | ⟨v, hv, rfl⟩ | rfl | hnone
    · have hplace : t.Places e.scope p.decl i := Tables.bind_offset_eq_some.mp hi
      obtain ⟨k, hplaced⟩ := h.placedTo (List.mem_append_left _ (List.mem_map_of_mem hp)) hplace
      have hnonneg := hplaced.parameter_nonneg hp hplace
      exact .inl (Word.negate_of_lt (lt_of_lt_of_le (by decide) hnonneg))
    · have hoffset : ((t.scope e.scope).findVar? v.name).bind Slot.offset = some i := hi
      have heq : (localRow (t.scope e.scope) v).2 = .localVar v.name (some i) := by
        rw [localRow, hoffset]
      rcases Int.lt_or_eq_of_le (h.local_bounds hv (Tables.bind_offset_eq_some.mp hi)).1 with hlt | rfl
      · exact .inl (Word.negate_of_lt hlt)
      · exact .inr ⟨rfl, _, heq⟩
    · exact .inl (FrameLayout.negate_oldReturnAddress hi)
    · rw [hnone] at hi
      cases hi
  · obtain ⟨v, hv, -, hi⟩ := exists_of_localVar_mem_picture hrow
    obtain ⟨hmin, hzero⟩ := h.local_bounds hv hi
    obtain ⟨distance, hdistance⟩ := Int.eq_ofNat_of_zero_le (Int.neg_nonneg_of_nonpos hzero)
    refine ⟨distance, hdistance.symm, ?_⟩
    rw [PictureRow.note, Option.map_some, Word.negate_of_lt (lt_of_le_of_ne hmin hne.symm), hdistance]
    rfl
  · rw [← h.places_min_iff]
    constructor
    · rintro ⟨name, hrow⟩
      obtain ⟨v, hv, -, hmin⟩ := exists_of_localVar_mem_picture hrow
      exact ⟨v, hv, hmin⟩
    · rintro ⟨v, hv, hmin⟩
      have hoffset : ((t.scope e.scope).findVar? v.name).bind Slot.offset = some Word.min :=
        Tables.bind_offset_eq_some.mpr hmin
      have hrow : (localRow (t.scope e.scope) v).2 ∈ q.picture e (t.scope e.scope) :=
        localRow_mem_picture hv
      rw [localRow, hoffset] at hrow
      exact ⟨v.name, hrow⟩

/-- Let the frames of a program that is declared be laid out, with success or not.  The pictures of its
frames show every local variable with its distance below the frame pointer, and negate no offset that
has no negation, unless laying out has failed at a procedure whose local variables reach the smallest
word. -/
theorem Program.picture_negations (p : Program) (declared allocated : Tables)
    (result : Except (Located FrameError) Unit)
    (hdeclared : p.declare.runOn .predefined = (.ok (), declared))
    (hallocated : p.allocate.runOn declared = (result, allocated)) :
    ∀ x ∈ p.knownProcedures allocated, x.1.Negations p.typeNames result
      (x.1.picture x.2 (allocated.scope x.2.scope)) := by
  have hbelong := (declare_belongTo p).of_ok hdeclared
  have hgrows : Tables.initial.GrowsTo declared := by
    have hgrows := p.declare_grows.outcome Tables.predefined_grows
    change Tables.initial.GrowsTo (p.declare.runOn .predefined).2 at hgrows
    rwa [hdeclared] at hgrows
  have herase : allocated.erase = declared.erase := by
    have hkeeps := (p.allocate_keeps_erase declared).outcome rfl
    change (p.allocate.runOn declared).2.erase = declared.erase at hkeeps
    rwa [hallocated] at hkeeps
  rintro ⟨q, e⟩ hx
  obtain ⟨q, hq, hentry⟩ := List.mem_filterMap.mp hx
  obtain ⟨e, he, heq⟩ := Option.map_eq_some_iff.mp hentry
  cases heq
  have hscoped : declared.Scoped q e.scope :=
    Tables.Scoped.of_erase ⟨e, Tables.procedure?_eq_some.mp he, rfl⟩ herase.symm
  exact (outcome hbelong (hgrows.unplaced Tables.initial_unplaced) hallocated hq hscoped).negations

/-- The counting program is laid out, and no picture of its frames shows a variable at the smallest
word. -/
theorem Program.picture_negations_countdown : ∃ result allocated,
    (ofDefinitions countdown).declare.runOn .predefined = (.ok (), countdownTables) ∧
      (ofDefinitions countdown).allocate.runOn countdownTables = (result, allocated) ∧
      ∀ x ∈ (ofDefinitions countdown).knownProcedures allocated,
        x.1.Negations (ofDefinitions countdown).typeNames result
          (x.1.picture x.2 (allocated.scope x.2.scope)) := by
  rcases hrun : (ofDefinitions countdown).allocate.runOn countdownTables with ⟨result, allocated⟩
  exact ⟨result, allocated, countdown_declared, rfl,
    picture_negations _ _ _ _ countdown_declared hrun⟩

/-- A program with local variables that take as many bytes as there are negative words. -/
def brimful : Program :=
  .ofDefinitions [.procedure
    { mark := .atLine 1
      name := "main"
      parameters := []
      locals := [⟨.atLine 2, "a", .array (.atLine 2) 536870911 (.named (.atLine 2) "int")⟩,
        ⟨.atLine 3, "b", .named (.atLine 3) "int"⟩]
      body := [] }]

/-- The tables of `brimful` when laying out its frame has failed. -/
def brimfulTables : Tables :=
  (brimful.allocate.runOn (brimful.declare.runOn .predefined).2).2

/-- Laying out the frame of a procedure may fail and leave a local variable at the smallest word.  The
picture of the frame then negates an offset that has no negation, and the distance that it shows is
not one. -/
theorem Program.picture_overflows :
    brimful.declare.runOn .predefined = (.ok (), (brimful.declare.runOn .predefined).2) ∧
      brimful.allocate.runOn (brimful.declare.runOn .predefined).2 =
        (.error (.atLine 1 (.frameTooLarge "main")), brimfulTables) ∧
      (∃ x ∈ brimful.knownProcedures brimfulTables,
        PictureRow.localVar "b" (some Word.min) ∈
          x.1.picture x.2 (brimfulTables.scope x.2.scope)) ∧
      Word.negate Word.min ≠ -Word.min ∧
      (PictureRow.localVar "b" (some Word.min)).note = "<- FP - -2147483648" := by
  have hresult : (brimful.allocate.runOn (brimful.declare.runOn .predefined).2).1 =
      .error (.atLine 1 (.frameTooLarge "main")) := by
    decide +kernel
  have hplace : ((brimful.knownProcedures brimfulTables).map fun x =>
      x.1.locals.map fun v => (localRow (brimfulTables.scope x.2.scope) v).2) =
      [[.localVar "a" (some (-2147483644)), .localVar "b" (some Word.min)]] := by
    decide +kernel
  refine ⟨by decide +kernel, ?_, ?_, by decide, by decide +kernel⟩
  · rw [brimfulTables, ← hresult]
  · obtain ⟨x, hx, hlocals⟩ := List.mem_map.mp (hplace ▸ List.mem_singleton_self _)
    have hb : PictureRow.localVar "b" (some Word.min) ∈
        x.1.locals.map fun v => (localRow (brimfulTables.scope x.2.scope) v).2 := by
      rw [hlocals]
      exact List.mem_cons_of_mem _ List.mem_cons_self
    obtain ⟨v, hv, hrow⟩ := List.mem_map.mp hb
    exact ⟨x, hx, hrow ▸ Procedure.localRow_mem_picture hv⟩

end TreeCompiler
