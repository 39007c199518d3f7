import Mathlib.Tactic.Ring
import TreeCompiler.Frame.Allocation
import TreeCompiler.Proofs.List
import TreeCompiler.Proofs.Scope.Erasure

/-!
# Where variables are placed

Every parameter takes a word, so that the parameters of a procedure lie at consecutive words from
the frame pointer upward.  Its local variables lie below the frame pointer, each one directly below
the one before.  `Procedure.offsets` lists the places of all the variables of a procedure in the
order of their declaration, and `Tables.Places` says that the tables hold such a place.
-/

namespace TreeCompiler

/-! ### Places -/

/-- So many consecutive words from an offset upward. -/
def wordsFrom : Int → Nat → List Int
  | _, 0 => []
  | offset, n + 1 => offset :: wordsFrom (offset + Word.size) n

/-- As many offsets as words. -/
@[simp] lemma length_wordsFrom {offset : Int} {n : Nat} : (wordsFrom offset n).length = n := by
  induction n generalizing offset with
  | zero => rfl
  | succ n ih => rw [wordsFrom, List.length_cons, ih]

/-- The offset of each of the words. -/
lemma getElem?_wordsFrom {offset : Int} {n k : Nat} (h : k < n) :
    (wordsFrom offset n)[k]? = some (offset + Word.size * k) := by
  induction n generalizing offset k with
  | zero => exact absurd h (Nat.not_lt_zero k)
  | succ n ih =>
    rw [wordsFrom]
    cases k with
    | zero => simp
    | succ k =>
      rw [List.getElem?_cons_succ, ih (Nat.lt_of_succ_lt_succ h)]
      congr 1
      push_cast
      ring

/-- The bytes that a variable takes. -/
def VariableDecl.bytes (names : List (String × ValueShape)) (d : VariableDecl) : Nat :=
  Word.size * ((d.type.shape? names).map ValueShape.cells).getD 0

/-- The places of variables from an offset downward, each one directly below the one before. -/
def offsetsBelow (names : List (String × ValueShape)) : Int → List VariableDecl → List Int
  | _, [] => []
  | offset, d :: rest => (offset - d.bytes names) :: offsetsBelow names (offset - d.bytes names) rest

/-- The bytes that variables take in all. -/
def bytesOf (names : List (String × ValueShape)) (l : List VariableDecl) : Nat :=
  (l.map (VariableDecl.bytes names)).sum

/-- Each of the variables lies below itself and those before it. -/
lemma getElem?_offsetsBelow {names : List (String × ValueShape)} {offset : Int}
    {l : List VariableDecl} {k : Nat} (h : k < l.length) :
    (offsetsBelow names offset l)[k]? = some (offset - bytesOf names (l.take (k + 1))) := by
  induction l generalizing offset k with
  | nil => exact absurd h (Nat.not_lt_zero k)
  | cons d rest ih =>
    rw [offsetsBelow]
    cases k with
    | zero => simp [bytesOf]
    | succ k =>
      have hbytes : bytesOf names ((d :: rest).take (k + 1 + 1)) =
          d.bytes names + bytesOf names (rest.take (k + 1)) := List.sum_cons
      rw [List.getElem?_cons_succ, ih (Nat.lt_of_succ_lt_succ h), hbytes]
      congr 1
      push_cast
      ring

/-- The bytes that the local variables of a procedure take. -/
def Procedure.localBytes (names : List (String × ValueShape)) (q : Procedure) : Nat :=
  bytesOf names (q.locals.map LocalVar.decl)

/-- The places of the variables of a procedure, from its frame pointer. -/
def Procedure.offsets (names : List (String × ValueShape)) (q : Procedure) : List Int :=
  wordsFrom 0 q.parameters.length ++ offsetsBelow names 0 (q.locals.map LocalVar.decl)

/-- A scope binds a declared variable to a slot at a place. -/
def Tables.Places (t : Tables) (scope : ScopeId) (d : VariableDecl) (offset : Int) : Prop :=
  ∃ slot, t.binding? scope d.name = some (.var slot) ∧ slot.offset = some offset

/-- The parameters that a procedure lists lie at consecutive words, and their area is known. -/
def ProcedureEntry.PlacesArguments (e : ProcedureEntry) : Prop :=
  e.parameters.map Slot.offset = (wordsFrom 0 e.parameters.length).map some ∧
    e.layout.arguments = some ((Word.size : Int) * e.parameters.length)

/-! ### Sizes -/

section
variable {names : List (String × ValueShape)} {types : TypeTable} {slot : Slot} {d : VariableDecl}

/-- A slot takes the bytes that the declared variable does. -/
lemma Slot.Holds.byteSize_eq (h : slot.Holds names types d) (hwf : types.WellFormed) :
    types.byteSize slot.type = d.bytes names := by
  obtain ⟨-, s, hs, hshape⟩ := h
  rw [hwf.byteSize_eq hshape, VariableDecl.bytes, hs]
  rfl

/-- A parameter is passed in a word, whether it is a reference or a single value. -/
lemma Slot.Holds.passingSize_eq (h : slot.Holds names types d) (hwf : types.WellFormed)
    (hscalar : d.isReference = false → ∀ s, d.type.shape? names = some s → s.isScalar = true) :
    slot.passingSize types = Word.size := by
  obtain ⟨href, s, hs, htype⟩ := h
  unfold Slot.passingSize
  split
  · rfl
  · rename_i hvalue
    have hfalse : d.isReference = false := by
      rw [← href]
      simpa using hvalue
    rw [hwf.byteSize_eq htype, ValueShape.cells_of_isScalar (hscalar hfalse s hs), Nat.mul_one]

/-- Every parameter is passed in a word. -/
lemma Tables.Declares.passingSize_eq {t : Tables} {q : Procedure} {e : ProcedureEntry}
    (h : t.Declares names q e) (hwf : t.types.WellFormed) :
    ∀ s ∈ e.parameters, s.passingSize t.types = Word.size := by
  have hscalar : ∀ d ∈ q.parameters.map Parameter.decl, d.isReference = false →
      ∀ s, d.type.shape? names = some s → s.isScalar = true := by
    intro d hd
    obtain ⟨p, hp, rfl⟩ := List.mem_map.mp hd
    exact h.scalar p hp
  have hparameters := h.parameters
  revert hscalar hparameters
  generalize q.parameters.map Parameter.decl = ds
  generalize e.parameters = slots
  intro hscalar hparameters slot hslot
  induction hparameters with
  | nil => cases hslot
  | @cons s d _ _ hs _ ih =>
    rcases List.mem_cons.mp hslot with rfl | hslot
    · exact hs.passingSize_eq hwf (hscalar d List.mem_cons_self)
    · exact ih (fun d hd => hscalar d (List.mem_cons_of_mem _ hd)) hslot

/-- Every parameter of a runtime procedure is passed in a word. -/
lemma Tables.DeclaresRuntime.passingSize_eq {t : Tables} {r : RuntimeProcedure} {e : ProcedureEntry}
    (h : t.DeclaresRuntime r e) : ∀ s ∈ e.parameters, s.passingSize t.types = Word.size := by
  have hparameters := h.2.2
  revert hparameters
  generalize r.references = references
  generalize e.parameters = slots
  intro hparameters slot hslot
  induction hparameters with
  | nil => cases hslot
  | @cons s _ _ _ hs _ ih =>
    rcases List.mem_cons.mp hslot with rfl | hslot
    · unfold Slot.passingSize
      rw [hs.1]
      split <;> rfl
    · exact ih hslot

/-- Every parameter of a global procedure is passed in a word. -/
lemma Tables.Holds.passingSize_eq {procedures : List Procedure} {t : Tables} {name : String}
    {e : ProcedureEntry} (h : t.Holds names procedures)
    (he : t.binding? .global name = some (.procedure e)) :
    ∀ s ∈ e.parameters, s.passingSize t.types = Word.size := by
  rcases h.origin name e he with ⟨r, hr, rfl⟩ | ⟨q, hq, rfl⟩
  · obtain ⟨e', hdeclares⟩ := h.runtime r hr
    cases he.symm.trans hdeclares.1
    exact hdeclares.passingSize_eq
  · exact (h.declares hq he).passingSize_eq h.wellFormed

end

/-! ### Placing parameters -/

/-- Parameters that take a word each are placed at consecutive words, if they fit. -/
lemma placeParameters_spec {types : TypeTable} {l placed : List Slot} {offset size : Int}
    (hsizes : ∀ s ∈ l, s.passingSize types = Word.size)
    (h : placeParameters types offset l = (placed, some size)) :
    placed.map Slot.erase = l.map Slot.erase ∧
      placed.map Slot.offset = (wordsFrom offset l.length).map some ∧
      size = offset + Word.size * l.length := by
  induction l generalizing offset placed size with
  | nil =>
    cases h
    exact ⟨rfl, rfl, by simp⟩
  | cons s rest ih =>
    obtain ⟨hs, hrest⟩ := List.forall_mem_cons.mp hsizes
    rw [placeParameters] at h
    split at h
    · cases h
    · rename_i next hnext
      obtain ⟨rfl, -⟩ := Word.check_eq_some_iff.mp hnext
      rcases hplaced : placeParameters types (offset + s.passingSize types) rest with ⟨tail, stop⟩
      rw [hplaced] at h
      cases h
      rw [hs] at hplaced
      obtain ⟨herase, hoffsets, hsize⟩ := ih hrest hplaced
      refine ⟨?_, ?_, ?_⟩
      · rw [List.map_cons, List.map_cons, herase]
        rfl
      · rw [List.map_cons, hoffsets]
        rfl
      · rw [hsize, List.length_cons]
        push_cast
        ring

/-- Parameters that take a word each cannot be placed if and only if they do not fit. -/
lemma placeParameters_eq_none_iff {types : TypeTable} {l : List Slot} {offset : Int}
    (hsizes : ∀ s ∈ l, s.passingSize types = Word.size) (hstart : 0 ≤ offset)
    (hfits : offset ≤ Word.max) :
    (placeParameters types offset l).2 = none ↔ Word.max < offset + Word.size * l.length := by
  have hword : (Word.size : Int) = 4 := rfl
  induction l generalizing offset with
  | nil =>
    rw [placeParameters, List.length_nil]
    simp only [reduceCtorEq, false_iff]
    omega
  | cons s rest ih =>
    obtain ⟨hs, hrest⟩ := List.forall_mem_cons.mp hsizes
    have hlength : (Word.size : Int) * (s :: rest).length =
        Word.size + Word.size * rest.length := by
      rw [List.length_cons]
      push_cast
      ring
    rw [placeParameters, hs, hlength]
    split
    · rename_i hnone
      have hlarge := (Word.check_eq_none_iff.mp hnone).resolve_left (by rw [Word.min]; omega)
      simp only [true_iff]
      have hnonneg : (0 : Int) ≤ Word.size * rest.length :=
        Int.mul_nonneg (Int.natCast_nonneg _) (Int.natCast_nonneg _)
      omega
    · rename_i next hnext
      obtain ⟨rfl, -, hnextFits⟩ := Word.check_eq_some_iff.mp hnext
      rw [← Int.add_assoc]
      exact ih hrest (by omega) hnextFits

/-- The offsets of placed parameters. -/
lemma filterMap_offset {l : List Slot} {offsets : List Int}
    (h : l.map Slot.offset = offsets.map some) : l.filterMap Slot.offset = offsets := by
  have hmap : l.filterMap Slot.offset = (l.map Slot.offset).filterMap id := by
    rw [List.filterMap_map]
    rfl
  rw [hmap, h, List.filterMap_map]
  exact List.filterMap_some

/-! ### Sizes of frames -/

namespace FrameLayout

variable {l : FrameLayout} {locals size : Int} {area : OutgoingArea}

/-- The size of a frame is that of its regions, if it fits. -/
lemma frameSize_eq_some (hlocals : l.locals = some locals) (harea : l.outgoing = some area) :
    l.frameSize = some size ↔ size = locals + area.size + savedRegisters ∧
      (Word.min ≤ locals + area.size ∧ locals + area.size ≤ Word.max) ∧
      Word.min ≤ size ∧ size ≤ Word.max := by
  have hframe : l.frameSize = (Word.check (locals + area.size)).bind fun areas =>
      Word.check (areas + savedRegisters) := by
    unfold frameSize
    rw [hlocals, harea]
    rfl
  rw [hframe, Option.bind_eq_some_iff]
  constructor
  · rintro ⟨areas, hareas, hsize⟩
    obtain ⟨rfl, hfits⟩ := Word.check_eq_some_iff.mp hareas
    obtain ⟨rfl, hfits'⟩ := Word.check_eq_some_iff.mp hsize
    exact ⟨rfl, hfits, hfits'⟩
  · rintro ⟨rfl, hfits, hfits'⟩
    exact ⟨_, Word.check_eq_some_iff.mpr ⟨rfl, hfits⟩, Word.check_eq_some_iff.mpr ⟨rfl, hfits'⟩⟩

/-- The place of the saved frame pointer is above the outgoing arguments, if it fits. -/
lemma oldFramePointer_eq_some (harea : l.outgoing = some area) :
    l.oldFramePointer = some size ↔
      size = area.size + Word.size ∧ Word.min ≤ size ∧ size ≤ Word.max := by
  have hpointer : l.oldFramePointer = Word.check (area.size + Word.size) := by
    unfold oldFramePointer
    rw [harea]
    rfl
  rw [hpointer, Word.check_eq_some_iff]
  constructor
  · rintro ⟨rfl, hfits⟩
    exact ⟨rfl, hfits⟩
  · rintro ⟨rfl, hfits⟩
    exact ⟨rfl, hfits⟩

/-- The place of the return address is below the local variables and the saved frame pointer. -/
lemma oldReturnAddress_eq_some (hlocals : l.locals = some locals) :
    l.oldReturnAddress = some size ↔ size = -(locals + savedRegisters) ∧
      Word.min ≤ locals + savedRegisters ∧ locals + savedRegisters ≤ Word.max := by
  have haddress : l.oldReturnAddress = (Word.check (locals + savedRegisters)).bind fun depth =>
      some (-depth) := by
    unfold oldReturnAddress
    rw [hlocals]
    rfl
  rw [haddress, Option.bind_eq_some_iff]
  constructor
  · rintro ⟨depth, hdepth, hsize⟩
    obtain ⟨rfl, hfits⟩ := Word.check_eq_some_iff.mp hdepth
    cases hsize
    exact ⟨rfl, hfits⟩
  · rintro ⟨rfl, hfits⟩
    exact ⟨_, Word.check_eq_some_iff.mpr ⟨rfl, hfits⟩, rfl⟩

/-- A frame is too large if the areas below the frame pointer and the saved registers do not fit. -/
lemma tooLarge_iff (hlocals : l.locals = some locals) (harea : l.outgoing = some area)
    (hnonneg : 0 ≤ locals ∧ 0 ≤ area.size) :
    (l.frameSize.isNone || l.oldReturnAddress.isNone) = true ↔
      Word.max < locals + area.size + savedRegisters := by
  have hsaved : savedRegisters = 8 := rfl
  have hmin : Word.min ≤ 0 := by decide
  constructor
  · intro hlarge
    by_contra hfits
    have hsize := (frameSize_eq_some hlocals harea).mpr
      ⟨rfl, ⟨by omega, by omega⟩, by omega, by omega⟩
    have haddress := (oldReturnAddress_eq_some hlocals).mpr ⟨rfl, by omega, by omega⟩
    rw [hsize, haddress] at hlarge
    cases hlarge
  · intro hlarge
    cases hsize : l.frameSize with
    | none => rfl
    | some size =>
      obtain ⟨rfl, -, -, hfits⟩ := (frameSize_eq_some hlocals harea).mp hsize
      exact absurd hfits (Int.not_le.mpr hlarge)

end FrameLayout

end TreeCompiler
