import TreeCompiler.Proofs.Emission.Program

/-!
# The geometry of stack frames

The offsets that the allocator writes into the tables are measured from two registers and come from
several places: local variables, parameters and the return address from the frame pointer, the
caller's frame pointer and the staged arguments from the stack pointer.  `Tables.frameMap?` reads
them back.  Between the stack pointer and the frame pointer every byte belongs to exactly one of the
regions, above it every byte of the argument area to exactly one parameter, and what a caller stages
is what its callee takes for its parameters (`Program.frame_geometry`).
-/

namespace TreeCompiler

/-! ### Stretches of bytes -/

/-- Consecutive bytes: where they start, and how many they are. -/
structure Stretch where
  start : Int
  size : Int
deriving DecidableEq

namespace Stretch

/-- The stretch, counted from another place. -/
def shift (base : Int) (s : Stretch) : Stretch := ⟨base + s.start, s.size⟩

/-- A byte belongs to the stretch. -/
def Contains (s : Stretch) (a : Int) : Prop := s.start ≤ a ∧ a < s.start + s.size

/-- No byte belongs to both stretches. -/
def Disjoint (s s' : Stretch) : Prop := ∀ a, ¬(s.Contains a ∧ s'.Contains a)

/-- The stretch consists of whole words. -/
def Aligned (s : Stretch) : Prop := (Word.size : Int) ∣ s.start ∧ (Word.size : Int) ∣ s.size

lemma Disjoint.symm {s s' : Stretch} (h : s.Disjoint s') : s'.Disjoint s :=
  fun a ha => h a ha.symm

end Stretch

/-- Stretches share no byte, and their bytes are those from one address up to another. -/
structure Tiles (low high : Int) (l : List Stretch) : Prop where
  ordered : low ≤ high
  disjoint : l.Pairwise Stretch.Disjoint
  covers : ∀ a, (low ≤ a ∧ a < high) ↔ ∃ s ∈ l, s.Contains a

namespace Tiles

variable {low mid high : Int} {l l' : List Stretch}

/-- No stretch is needed where there are no bytes. -/
lemma nil : Tiles low low [] where
  ordered := le_refl low
  disjoint := .nil
  covers a := by
    constructor
    · intro h
      omega
    · rintro ⟨s, hs, -⟩
      cases hs

/-- A stretch tiles its own bytes. -/
lemma singleton {s : Stretch} (hlow : s.start = low) (hhigh : s.start + s.size = high)
    (hsize : 0 ≤ s.size) : Tiles low high [s] where
  ordered := by omega
  disjoint := List.pairwise_singleton _ _
  covers a := by
    simp only [List.mem_singleton, exists_eq_left]
    unfold Stretch.Contains
    omega

/-- Neighbouring ranges are tiled together. -/
lemma append (h : Tiles low mid l) (h' : Tiles mid high l') : Tiles low high (l ++ l') where
  ordered := h.ordered.trans h'.ordered
  disjoint := by
    refine List.pairwise_append.mpr ⟨h.disjoint, h'.disjoint, fun s hs s' hs' a ⟨ha, ha'⟩ => ?_⟩
    have hbelow := (h.covers a).mpr ⟨s, hs, ha⟩
    have habove := (h'.covers a).mpr ⟨s', hs', ha'⟩
    omega
  covers a := by
    have hlow := h.ordered
    have hhigh := h'.ordered
    constructor
    · intro ha
      rcases lt_or_ge a mid with hmid | hmid
      · obtain ⟨s, hs, hsa⟩ := (h.covers a).mp ⟨ha.1, hmid⟩
        exact ⟨s, List.mem_append_left _ hs, hsa⟩
      · obtain ⟨s, hs, hsa⟩ := (h'.covers a).mp ⟨hmid, ha.2⟩
        exact ⟨s, List.mem_append_right _ hs, hsa⟩
    · rintro ⟨s, hs, hsa⟩
      rcases List.mem_append.mp hs with hs | hs
      · have := (h.covers a).mpr ⟨s, hs, hsa⟩
        omega
      · have := (h'.covers a).mpr ⟨s, hs, hsa⟩
        omega

/-- The order of the stretches does not matter. -/
lemma perm (h : Tiles low high l) (hperm : l.Perm l') : Tiles low high l' where
  ordered := h.ordered
  disjoint := (hperm.pairwise_iff fun hs => hs.symm).mp h.disjoint
  covers a := by simp only [h.covers a, hperm.mem_iff]

/-- Neighbouring ranges are tiled together, from the top down. -/
lemma stack (h : Tiles mid high l) (h' : Tiles low mid l') : Tiles low high (l ++ l') :=
  (h'.append h).perm List.perm_append_comm

end Tiles

/-! ### Frames as the tables have them -/

/-- The numbers that make up the frame of a procedure: its size, the places of the saved registers,
the sizes of its areas, and the stretches of its variables, counted from the frame pointer; those of
its parameters once more as its callers know them. -/
structure FrameMap where
  size : Int
  returnAddress : Int
  framePointer : Int
  outgoing : Int
  localArea : Int
  argumentArea : Int
  locals : List Stretch
  parameters : List Stretch
  known : List Stretch

/-- The stretch of a slot that takes so many bytes, counted from the frame pointer. -/
def Slot.stretch? (slot : Slot) (size : Nat) : Option Stretch :=
  slot.offset.map fun offset => ⟨offset, size⟩

namespace Tables

/-- The stretch of a local variable. -/
def localStretch? (t : Tables) (e : ProcedureEntry) (v : LocalVar) : Option Stretch :=
  ((t.scope e.scope).findVar? v.name).bind fun slot => slot.stretch? (t.types.byteSize slot.type)

/-- The stretch of a parameter. -/
def parameterStretch? (t : Tables) (e : ProcedureEntry) (x : Parameter) : Option Stretch :=
  ((t.scope e.scope).findVar? x.name).bind fun slot => slot.stretch? (slot.passingSize t.types)

/-- The frame of a procedure. -/
def frameMap? (t : Tables) (q : Procedure) : Option FrameMap := do
  let e ← t.procedure? q.name
  let size ← e.layout.frameSize
  let returnAddress ← e.layout.oldReturnAddress
  let framePointer ← e.layout.oldFramePointer
  let area ← e.layout.outgoing
  let localArea ← e.layout.locals
  let argumentArea ← e.layout.arguments
  let locals ← q.locals.mapM (t.localStretch? e)
  let parameters ← q.parameters.mapM (t.parameterStretch? e)
  let known ← e.parameters.mapM fun slot => slot.stretch? (slot.passingSize t.types)
  return ⟨size, returnAddress, framePointer, area.size, localArea, argumentArea, locals, parameters,
    known⟩

end Tables

namespace FrameMap

/-- The area for outgoing arguments of a procedure that runs with a stack pointer. -/
def outgoingArea (m : FrameMap) (sp : Int) : Stretch := ⟨sp, m.outgoing⟩

/-- The regions between the stack pointer and the frame pointer: the local variables, the saved
return address, the saved frame pointer, and the area for outgoing arguments. -/
def regions (m : FrameMap) (sp : Int) : List Stretch :=
  let fp := sp + m.size
  m.locals.map (Stretch.shift fp) ++
    [⟨fp + m.returnAddress, Word.size⟩, ⟨sp + m.framePointer, Word.size⟩, m.outgoingArea sp]

/-- The parameters of a procedure that runs with a stack pointer. -/
def parametersAt (m : FrameMap) (sp : Int) : List Stretch :=
  m.parameters.map (Stretch.shift (sp + m.size))

/-- The frame and the argument area are tiled, whatever the stack pointer is, and callers know the
parameters as they are. -/
structure Tiled (m : FrameMap) : Prop where
  frame : ∀ sp, Tiles sp (sp + m.size) (m.regions sp)
  arguments : ∀ sp, Tiles (sp + m.size) (sp + m.size + m.argumentArea) (m.parametersAt sp)
  known : m.known = m.parameters

/-- All the numbers of a frame are whole words. -/
structure Aligned (m : FrameMap) : Prop where
  numbers : ∀ i ∈ [m.size, m.returnAddress, m.framePointer, m.outgoing, m.localArea, m.argumentArea],
    (Word.size : Int) ∣ i
  stretches : ∀ s ∈ m.locals ++ m.parameters, s.Aligned

end FrameMap

/-- A procedure with a frame stages the arguments of a call.  Every argument has a stretch of bytes
from the stack pointer, inside the area for outgoing arguments, and if the callee is one of the
procedures, which takes its own frame off the stack pointer, it is the stretch of its parameter. -/
def Tables.Stages (t : Tables) (procedures : List Procedure) (m : FrameMap)
    (callee : String) (arguments : List Expr) : Prop :=
  ∃ e, t.procedure? callee = some e ∧ e.parameters.length = arguments.length ∧
    ∀ (k : Nat) (parameter : Slot), e.parameters[k]? = some parameter → ∃ staged : Stretch,
      parameter.stretch? (parameter.passingSize t.types) = some staged ∧ ∀ sp,
        (∀ a, (staged.shift sp).Contains a → (m.outgoingArea sp).Contains a) ∧
        ∀ q ∈ procedures, q.name = callee → ∃ m', t.frameMap? q = some m' ∧
          (m'.parametersAt (sp - m'.size))[k]? = some (staged.shift sp)

/-! ### The frame of a procedure in closed form -/

/-- The stretches of variables from an offset downward. -/
def stretchesBelow (names : List (String × ValueShape)) : Int → List VariableDecl → List Stretch
  | _, [] => []
  | offset, d :: rest =>
    ⟨offset - d.bytes names, d.bytes names⟩ :: stretchesBelow names (offset - d.bytes names) rest

/-- The stretches of consecutive words. -/
def wordStretches (offset : Int) (n : Nat) : List Stretch :=
  (wordsFrom offset n).map fun i => ⟨i, Word.size⟩

section
variable {names : List (String × ValueShape)} {l : List VariableDecl} {offset : Int} {n : Nat}

lemma VariableDecl.dvd_bytes (d : VariableDecl) : (Word.size : Int) ∣ d.bytes names :=
  Int.natCast_dvd_natCast.mpr (Nat.dvd_mul_right _ _)

lemma dvd_bytesOf : (Word.size : Int) ∣ bytesOf names l := by
  unfold bytesOf
  induction l with
  | nil => exact Int.natCast_dvd_natCast.mpr (Nat.dvd_zero _)
  | cons d rest ih =>
    rw [List.map_cons, List.sum_cons, Int.natCast_add]
    exact Int.dvd_add d.dvd_bytes ih

/-- Variables that are placed one below the other tile the bytes below an offset. -/
lemma stretchesBelow_tiles (fp : Int) : Tiles (fp + offset - bytesOf names l) (fp + offset)
    ((stretchesBelow names offset l).map (Stretch.shift fp)) := by
  induction l generalizing offset with
  | nil =>
    unfold bytesOf
    simpa [stretchesBelow] using Tiles.nil
  | cons d rest ih =>
    have hbytes : bytesOf names (d :: rest) = d.bytes names + bytesOf names rest := List.sum_cons
    have hfirst : Tiles (fp + (offset - d.bytes names)) (fp + offset)
        [Stretch.shift fp ⟨offset - d.bytes names, d.bytes names⟩] :=
      .singleton rfl (by unfold Stretch.shift; dsimp only; omega) (Int.natCast_nonneg _)
    have hall := hfirst.stack (@ih (offset - d.bytes names))
    have hlow : fp + offset - bytesOf names (d :: rest) =
        fp + (offset - d.bytes names) - bytesOf names rest := by
      rw [hbytes]
      push_cast
      ring
    rw [stretchesBelow, List.map_cons, hlow]
    exact hall

/-- Consecutive words tile their bytes. -/
lemma wordStretches_tiles (fp : Int) : Tiles (fp + offset) (fp + offset + Word.size * n)
    ((wordStretches offset n).map (Stretch.shift fp)) := by
  induction n generalizing offset with
  | zero => simpa [wordStretches, wordsFrom] using Tiles.nil
  | succ n ih =>
    have hfirst : Tiles (fp + offset) (fp + (offset + Word.size))
        [Stretch.shift fp ⟨offset, Word.size⟩] :=
      .singleton rfl (Int.add_assoc _ _ _) (Int.natCast_nonneg _)
    have hboth := hfirst.append (@ih (offset + Word.size))
    have hhigh : fp + (offset + Word.size) + Word.size * n =
        fp + offset + Word.size * (n + 1 : Nat) := by
      push_cast
      ring
    rw [hhigh] at hboth
    exact hboth

lemma stretchesBelow_aligned (hoffset : (Word.size : Int) ∣ offset) :
    ∀ s ∈ stretchesBelow names offset l, s.Aligned := by
  induction l generalizing offset with
  | nil =>
    intro s hs
    cases hs
  | cons d rest ih =>
    have hbytes : (Word.size : Int) ∣ d.bytes names := d.dvd_bytes
    have hstart := Int.dvd_sub hoffset hbytes
    intro s hs
    rcases List.mem_cons.mp hs with rfl | hs
    · exact ⟨hstart, d.dvd_bytes⟩
    · exact ih hstart s hs

lemma wordStretches_aligned (hoffset : (Word.size : Int) ∣ offset) :
    ∀ s ∈ wordStretches offset n, s.Aligned := by
  induction n generalizing offset with
  | zero =>
    intro s hs
    cases hs
  | succ n ih =>
    intro s hs
    rcases List.mem_cons.mp hs with rfl | hs
    · exact ⟨hoffset, dvd_refl _⟩
    · exact ih (Int.dvd_add hoffset (dvd_refl _)) s hs

end

/-- The frame of a procedure as its declarations and the signatures of its callees tell it. -/
def Procedure.frameMap (names : List (String × ValueShape))
    (signature : String → Option (List Formal)) (q : Procedure) : FrameMap where
  size := q.frameBytes names signature
  returnAddress := -(q.localBytes names + 2 * Word.size)
  framePointer := q.outgoingBytes signature + Word.size
  outgoing := q.outgoingBytes signature
  localArea := q.localBytes names
  argumentArea := Word.size * q.parameters.length
  locals := stretchesBelow names 0 (q.locals.map LocalVar.decl)
  parameters := wordStretches 0 q.parameters.length
  known := wordStretches 0 q.parameters.length

section
variable {names : List (String × ValueShape)} {signature : String → Option (List Formal)}
  {q : Procedure}

/-- From the frame pointer down come the local variables, the caller's frame pointer, the return
address and the outgoing arguments. -/
lemma Procedure.frameMap_tiled : (q.frameMap names signature).Tiled where
  frame sp := by
    have hsize : (q.frameMap names signature).size =
        q.outgoingBytes signature + Word.size + Word.size + q.localBytes names := by
      change ((q.frameBytes names signature : Nat) : Int) = _
      rw [Procedure.frameBytes]
      push_cast
      ring
    obtain ⟨fp, hfp⟩ : ∃ fp, fp = sp + (q.frameMap names signature).size := ⟨_, rfl⟩
    have hlocals : Tiles (fp + 0 - q.localBytes names) (fp + 0)
        ((stretchesBelow names 0 (q.locals.map LocalVar.decl)).map (Stretch.shift fp)) :=
      stretchesBelow_tiles fp
    have houtgoing : Tiles sp (sp + q.outgoingBytes signature)
        [⟨sp, q.outgoingBytes signature⟩] := .singleton rfl rfl (Int.natCast_nonneg _)
    have hreturn : Tiles (sp + q.outgoingBytes signature)
        (sp + (q.outgoingBytes signature + Word.size))
        [⟨fp + -(q.localBytes names + 2 * Word.size), Word.size⟩] := by
      refine .singleton ?_ ?_ (Int.natCast_nonneg _) <;>
      · rw [hfp, hsize]
        ring
    have hpointer : Tiles (sp + (q.outgoingBytes signature + Word.size)) (fp + 0 - q.localBytes names)
        [⟨sp + (q.outgoingBytes signature + Word.size), Word.size⟩] := by
      refine .singleton rfl ?_ (Int.natCast_nonneg _)
      rw [hfp, hsize]
      ring
    have hall := hlocals.stack (hpointer.stack (hreturn.stack houtgoing))
    rw [hfp, Int.add_zero] at hall
    -- The regions are listed with the return address before the frame pointer.
    exact hall.perm (List.Perm.append_left _ (List.Perm.swap _ _ _))
  arguments sp := by
    have htiles : Tiles (sp + (q.frameMap names signature).size + 0)
        (sp + (q.frameMap names signature).size + 0 + Word.size * q.parameters.length)
        ((wordStretches 0 q.parameters.length).map
          (Stretch.shift (sp + (q.frameMap names signature).size))) :=
      wordStretches_tiles _
    rwa [Int.add_zero] at htiles
  known := rfl

/-- Everything in a frame is counted in words. -/
lemma Procedure.frameMap_aligned : (q.frameMap names signature).Aligned where
  numbers := by
    have hlocals : (Word.size : Int) ∣ q.localBytes names := dvd_bytesOf
    have houtgoing : (Word.size : Int) ∣ q.outgoingBytes signature := by
      unfold Procedure.outgoingBytes
      induction q.calls with
      | nil => exact Int.natCast_dvd_natCast.mpr (Nat.dvd_zero _)
      | cons c rest ih =>
        rw [List.map_cons, List.foldr_cons, Nat.max_def]
        split
        · exact ih
        · exact Int.natCast_dvd_natCast.mpr (Nat.dvd_mul_right _ _)
    have hword : (Word.size : Int) ∣ Word.size := dvd_refl _
    have hsaved : (Word.size : Int) ∣ 2 * Word.size := Dvd.intro_left _ rfl
    have hsize : (Word.size : Int) ∣ q.frameBytes names signature := by
      unfold Procedure.frameBytes
      push_cast
      exact Int.dvd_add (Int.dvd_add hlocals houtgoing) hsaved
    simp only [List.forall_mem_cons]
    exact ⟨hsize, Int.dvd_neg.mpr (Int.dvd_add hlocals hsaved), Int.dvd_add houtgoing hword, houtgoing, hlocals,
      Int.dvd_mul_right _ _, fun i hi => by cases hi⟩
  stretches s hs := by
    rcases List.mem_append.mp hs with hs | hs
    · exact stretchesBelow_aligned (dvd_zero _) s hs
    · exact wordStretches_aligned (dvd_zero _) s hs

end

/-! ### What the tables hold -/

section
variable {names : List (String × ValueShape)} {t : Tables} {e : ProcedureEntry}

/-- The stretch of a variable that is placed. -/
lemma Tables.Places.stretch?_eq {d : VariableDecl} {offset : Int} {slot : Slot}
    (hplaces : t.Places e.scope d offset)
    (hslot : t.binding? e.scope d.name = some (.var slot)) (size : Slot → Nat) :
    (((t.scope e.scope).findVar? d.name).bind fun slot => slot.stretch? (size slot)) =
      some ⟨offset, size slot⟩ := by
  obtain ⟨slot', hslot', hoffset⟩ := hplaces
  rw [hslot] at hslot'
  cases hslot'
  rw [Tables.findVar?_eq_some.mpr hslot, Option.bind_some, Slot.stretch?, hoffset]
  rfl

/-- The stretches of local variables that are placed one below the other. -/
lemma forall₂_localStretch? (hwf : t.types.WellFormed) {l : List LocalVar} {offset : Int}
    (hknows : t.Knows names e.scope (l.map LocalVar.decl))
    (hplaces : List.Forall₂ (t.Places e.scope) (l.map LocalVar.decl)
      (offsetsBelow names offset (l.map LocalVar.decl))) :
    List.Forall₂ (fun v s => t.localStretch? e v = some s) l
      (stretchesBelow names offset (l.map LocalVar.decl)) := by
  induction l generalizing offset with
  | nil => exact .nil
  | cons v rest ih =>
    rw [List.map_cons] at hknows hplaces ⊢
    rw [offsetsBelow, List.forall₂_cons] at hplaces
    obtain ⟨hknows, hknowsRest⟩ := List.forall_mem_cons.mp hknows
    obtain ⟨slot, hslot, hholds⟩ := hknows
    refine .cons ?_ (ih hknowsRest hplaces.2)
    have hstretch := hplaces.1.stretch?_eq hslot fun slot => t.types.byteSize slot.type
    rwa [hholds.byteSize_eq hwf] at hstretch

/-- The stretches of parameters that are placed at consecutive words. -/
lemma forall₂_parameterStretch? (hwf : t.types.WellFormed) {l : List Parameter} {offset : Int}
    (hknows : t.Knows names e.scope (l.map Parameter.decl))
    (hscalar : ∀ x ∈ l, x.isReference = false →
      ∀ s, x.type.shape? names = some s → s.isScalar = true)
    (hplaces : List.Forall₂ (t.Places e.scope) (l.map Parameter.decl)
      (wordsFrom offset l.length)) :
    List.Forall₂ (fun x s => t.parameterStretch? e x = some s) l
      (wordStretches offset l.length) := by
  induction l generalizing offset with
  | nil => exact .nil
  | cons x rest ih =>
    rw [List.map_cons] at hknows hplaces
    rw [List.length_cons] at hplaces ⊢
    rw [wordsFrom, List.forall₂_cons] at hplaces
    obtain ⟨hknows, hknowsRest⟩ := List.forall_mem_cons.mp hknows
    obtain ⟨hscalar, hscalarRest⟩ := List.forall_mem_cons.mp hscalar
    obtain ⟨slot, hslot, hholds⟩ := hknows
    refine .cons ?_ (ih hknowsRest hscalarRest hplaces.2)
    have hstretch := hplaces.1.stretch?_eq hslot fun slot => slot.passingSize t.types
    rwa [hholds.passingSize_eq hwf hscalar] at hstretch

end

/-- The stretches of parameters that are listed at consecutive words. -/
lemma forall₂_stretch? {types : TypeTable} {l : List Slot} {offset : Int}
    (hsizes : ∀ s ∈ l, s.passingSize types = Word.size)
    (hoffsets : l.map Slot.offset = (wordsFrom offset l.length).map some) :
    List.Forall₂ (fun slot s => slot.stretch? (slot.passingSize types) = some s) l
      (wordStretches offset l.length) := by
  induction l generalizing offset with
  | nil => exact .nil
  | cons slot rest ih =>
    obtain ⟨hsize, hsizes⟩ := List.forall_mem_cons.mp hsizes
    rw [List.map_cons, List.length_cons, wordsFrom, List.map_cons, List.cons.injEq] at hoffsets
    refine .cons ?_ (ih hsizes hoffsets.2)
    rw [Slot.stretch?, hoffsets.1, hsize]
    rfl

namespace Tables.LaidOut

variable {p : Program} {t : Tables} {q : Procedure}

/-- The tables hold the frame of the closed form. -/
lemma frameMap?_eq (h : t.LaidOut p) (hq : q ∈ p.procedures) :
    t.frameMap? q = some (q.frameMap p.typeNames p.signature) := by
  obtain ⟨e, hlaysOut⟩ := h.procedures q hq
  have hdeclares := h.belongTo.declares hq hlaysOut.bound
  have hwf := h.belongTo.wellFormed
  obtain ⟨hsize, hpointer, hreturn, -⟩ := h.layout_eq hlaysOut
  obtain ⟨area, sizes, harea, -, hsizes, houtgoing⟩ := hlaysOut.outgoing
  have houtgoing : area.size = (q.outgoingBytes p.signature : Int) := by
    rw [houtgoing, h.outgoing_eq hsizes]
    rfl
  have harguments := hlaysOut.arguments.2
  have hknown := mapM_eq_some
    (forall₂_stretch? (hdeclares.passingSize_eq hwf) hlaysOut.arguments.1)
  rw [hdeclares.length_parameters] at harguments hknown
  have hplaces := hlaysOut.places
  have hknows := hdeclares.knows
  unfold Procedure.decls at hplaces hknows
  unfold Procedure.offsets at hplaces
  have hsplit : (q.parameters.map Parameter.decl).length =
      (wordsFrom 0 q.parameters.length).length := by
    rw [List.length_map, length_wordsFrom]
  obtain ⟨hparameterPlaces, hlocalPlaces⟩ := forall₂_append_of_length hsplit hplaces
  have hlocals := mapM_eq_some (forall₂_localStretch? hwf
    (fun d hd => hknows d (List.mem_append_right _ hd)) hlocalPlaces)
  have hparameters := mapM_eq_some (forall₂_parameterStretch? hwf
    (fun d hd => hknows d (List.mem_append_left _ hd)) hdeclares.scalar hparameterPlaces)
  unfold Tables.frameMap?
  rw [Tables.procedure?_eq_some.mpr hlaysOut.bound]
  simp only [Option.bind_eq_bind, Option.bind_some, hsize, hreturn, hpointer, harea, hlaysOut.locals,
    harguments, hlocals, hparameters, hknown, houtgoing]
  rfl

/-- Arguments are staged where the callee finds its parameters. -/
lemma stages (h : t.LaidOut p) (hq : q ∈ p.procedures) (htyped : q.WellTyped t)
    {c : String × List Expr} (hc : c ∈ q.calls) :
    t.Stages p.procedures (q.frameMap p.typeNames p.signature) c.1 c.2 := by
  obtain ⟨e, hentry, hbody⟩ := htyped
  have hdeclares := h.belongTo.declares hq (Tables.procedure?_eq_some.mp hentry)
  obtain ⟨s, hs, hcall⟩ := mem_callsOf.mp hc
  obtain ⟨callee, hcallee, haccepts⟩ := (hbody s hs).callee c hcall
  have hglobal := hdeclares.lookup_procedure h.belongTo hcallee
  obtain ⟨⟨hoffsets, -⟩, formals, hsignature, hformals⟩ := h.signature_eq hglobal
  refine ⟨callee, Tables.procedure?_eq_some.mpr hglobal, haccepts.length_eq,
    fun k parameter hk => ?_⟩
  have hlt : k < callee.parameters.length := (List.getElem?_eq_some_iff.mp hk).1
  have hsizes := h.belongTo.passingSize_eq hglobal
  have hstaged : (wordStretches 0 callee.parameters.length)[k]? =
      some ⟨0 + Word.size * k, Word.size⟩ := by
    unfold wordStretches
    rw [List.getElem?_map, getElem?_wordsFrom hlt]
    rfl
  obtain ⟨staged, hstaged', hstretch⟩ := forall₂_getElem? (forall₂_stretch? hsizes hoffsets) hk
  rw [hstaged] at hstaged'
  cases hstaged'
  refine ⟨_, hstretch, fun sp =>
    ⟨fun a ha => ?_, fun q' hq' hname => ⟨_, h.frameMap?_eq hq', ?_⟩⟩⟩
  · -- The callee has no more parameters than there is room for.
    have hroom := Procedure.argumentBytes_le hc hsignature
    rw [← hformals.length_eq] at hroom
    unfold Stretch.Contains Stretch.shift at ha
    unfold Stretch.Contains FrameMap.outgoingArea Procedure.frameMap
    dsimp only [Word.size] at ha hroom ⊢
    omega
  · rw [← hname] at hglobal
    rw [(h.belongTo.declares hq' hglobal).length_parameters] at hstaged
    unfold FrameMap.parametersAt Procedure.frameMap
    dsimp only
    rw [Int.sub_add_cancel, List.getElem?_map, hstaged]
    rfl

end Tables.LaidOut

/-! ### Programs -/

/-- The frames of a program that is declared, checked and laid out are as they should be, for every
procedure and wherever its stack pointer points to: the local variables, the saved registers and
the area for outgoing arguments tile the bytes from the stack pointer up to the frame pointer; the
parameters tile the argument area above it; all offsets and sizes are whole words; and the
arguments of every call are staged where the callee finds its parameters. -/
theorem Program.frame_geometry (p : Program) (declared allocated : Tables) (types : Annotations)
    (hdeclared : p.declare.runOn .predefined = (.ok (), declared))
    (hchecked : p.check declared = .ok types)
    (hallocated : p.allocate.runOn declared = (.ok (), allocated)) :
    ∀ q ∈ p.procedures, ∃ m, allocated.frameMap? q = some m ∧ m.Tiled ∧ m.Aligned ∧
      ∀ c ∈ q.calls, allocated.Stages p.procedures m c.1 c.2 := by
  have hbelong := (declare_belongTo p).of_ok hdeclared
  obtain ⟨-, htyped⟩ := wellTyped_of_check hchecked
  obtain ⟨herase, hruntime, hlaysOut⟩ := (allocate_ends hbelong htyped).of_ok hallocated
  have hlaidOut : allocated.LaidOut p := ⟨hbelong.of_erase herase.symm, hruntime, hlaysOut⟩
  intro q hq
  exact ⟨_, hlaidOut.frameMap?_eq hq, Procedure.frameMap_tiled, Procedure.frameMap_aligned,
    fun c hc => hlaidOut.stages hq ((htyped q hq).of_erase herase.symm) hc⟩

/-- The frames of the counting program, which calls a procedure of its own and one of the runtime
library, and has an array. -/
theorem Program.frame_geometry_countdown : ∃ types allocated,
    (ofDefinitions countdown).declare.runOn .predefined = (.ok (), countdownTables) ∧
      (ofDefinitions countdown).check countdownTables = .ok types ∧
      (ofDefinitions countdown).allocate.runOn countdownTables = (.ok (), allocated) ∧
      ∀ q ∈ (ofDefinitions countdown).procedures, ∃ m, allocated.frameMap? q = some m ∧ m.Tiled ∧
        m.Aligned ∧
        ∀ c ∈ q.calls, allocated.Stages (ofDefinitions countdown).procedures m c.1 c.2 := by
  obtain ⟨types, htypes⟩ := exists_countdown_checked
  obtain ⟨allocated, hallocated⟩ := exists_countdown_allocated
  exact ⟨types, allocated, countdown_declared, htypes, hallocated,
    frame_geometry _ _ _ _ countdown_declared htypes hallocated⟩

end TreeCompiler
