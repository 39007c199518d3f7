import TreeCompiler.Proofs.Meaning.Frame

/-!
# What the words of the stack are for

A word of the stack holds a cell of the store, or a word that is saved there, or nothing that
matters (`Role`).  A `Frame` assigns a role to every word of the stack from its own bottom upward.
`Frame.Valid` is what such an assignment has to obey so that the code of the procedure finds what it
is looking for, and `Frame.Holds` says that the memory agrees with it.  A store to a cell keeps the
agreement, since no other word is for the same cell.
-/

namespace TreeCompiler

/-! ### Roles -/

/-- What a word of the stack is for. -/
inductive Role where
  | cell (l : Location)
  | saved (w : Bits)
  | free

/-- A word is as its role has it. -/
def Role.Holds (store : Store) (w : Bits) : Role → Prop
  | cell l => w = store l
  | saved w' => w = w'
  | free => True

/-- The frame of a procedure that has been entered: what its names stand for, where it ends, what
the words from there on are for, and the frame pointer and the place in the code of its caller. -/
structure Frame where
  procedure : Procedure
  environment : Environment
  bottom : Nat
  roles : Nat → Role
  callerFp : Bits
  returnTo : Bits

/-- The cells of a value are in the stack, from a word up to another, and among the blocks that
there are. -/
structure Binding.Owned (origin : Nat → Nat) (blocks : Nat) (roles : Nat → Role)
    (bottom top : Nat) (b : Binding) : Prop where
  fits : b.shape.Fits
  above : bottom ≤ b.location.word origin
  below : b.location.word origin + b.shape.cells ≤ top
  block : b.location.block < blocks
  cells : ∀ c < b.shape.cells, roles (b.location.word origin + c) = .cell (b.location.shift c)

/-- A place belongs to what its variable stands for: a reference is saved there, any other variable
lies there itself. -/
structure Place.Belongs (origin : Nat → Nat) (roles : Nat → Role) (fp top : Nat) (p : Place)
    (b : Binding) (a : Nat) : Prop where
  shape : b.shape = p.shape
  word : (Word.size * a : Int) = Word.size * fp + p.offset
  below : a ≤ top
  reference : p.isReference = true → a < top ∧ roles a = .saved (wordAt (b.location.word origin))
  value : p.isReference = false → a = b.location.word origin

namespace Frame

variable (p : Program) (origin : Nat → Nat) (blocks top : Nat)

/-- The word that the frame pointer points to. -/
def fp (f : Frame) : Nat := f.bottom + f.procedure.frameWords p.typeNames p.signature

/-- The word above those for outgoing arguments. -/
def saves (f : Frame) : Nat := f.bottom + f.procedure.outgoingWords p.signature

/-- The roles of the words are such that the code of the procedure finds what it needs. -/
structure Valid (f : Frame) : Prop where
  member : f.procedure ∈ p.procedures
  below : f.fp p ≤ top
  outgoing : ∀ a, f.bottom ≤ a → a < f.saves p → f.roles a = .free
  returnTo : f.procedure.calls ≠ [] → f.roles (f.saves p) = .saved f.returnTo
  callerFp : f.roles (f.saves p + 1) = .saved f.callerFp
  cells : ∀ a l, f.roles a = .cell l → l.word origin = a ∧ l.block < blocks
  visible : ∀ name place, (f.procedure.places p.typeNames).lookup name = some place →
    ∃ b a, f.environment.lookup name = some b ∧
      b.Owned origin blocks f.roles f.bottom top ∧ place.Belongs origin f.roles (f.fp p) top b a ∧
      f.bottom ≤ a

/-- The words of the memory from the bottom of the frame on are as their roles have them. -/
def Holds (store : Store) (memory : Nat → Bits) (f : Frame) : Prop :=
  ∀ a, f.bottom ≤ a → a < top → (f.roles a).Holds store (memory a)

/-- How the procedure of the frame sees its variables. -/
def view (store : Store) (f : Frame) : View where
  places := f.procedure.places p.typeNames
  environment := f.environment
  store := store
  origin := origin
  fp := f.fp p

end Frame

/-! ### What values are in the stack -/

section
variable {p : Program} {origin origin' : Nat → Nat} {blocks blocks' top : Nat} {f : Frame}
  {store : Store} {memory : Nat → Bits} {b : Binding}

/-- An element of a value in the stack is in the stack. -/
lemma Binding.Owned.element {roles : Nat → Role} {bottom : Nat}
    (h : b.Owned origin blocks roles bottom top) {i : Bits} {b' : Binding}
    (hb : b.element i = .ok b') : b'.Owned origin blocks roles bottom top := by
  obtain ⟨hfits, habove, hbelow, hblock, hcells⟩ := h
  unfold Binding.element at hb
  split at hb
  · rename_i length s hshape
    rw [hshape] at hfits hbelow hcells
    split at hb
    · rename_i hrange
      cases hb
      rw [index_in_range hfits.2.1] at hrange
      have hend : i.toNat * s.cells + s.cells ≤ length * s.cells := by
        rw [← Nat.succ_mul]
        exact Nat.mul_le_mul_right _ hrange
      rw [ValueShape.cells] at hbelow hcells
      refine ⟨hfits.1, ?_, ?_, hblock, fun c hc => ?_⟩
      · rw [Location.word_shift]
        omega
      · rw [Location.word_shift]
        dsimp only
        omega
      · dsimp only at hc
        rw [Location.word_shift, Nat.add_assoc, hcells _ (by omega)]
        unfold Location.shift
        rw [Nat.add_assoc]
    · cases hb
  · cases hb

/-- What a variable stands for is in the stack. -/
lemma Frame.Valid.locate_owned (h : f.Valid p origin blocks top) {x : Variable} {s : ValueShape}
    {b : Binding} (hx : x.shape? (f.procedure.places p.typeNames) = some s)
    (hb : x.locate f.environment store = .ok b) :
    b.Owned origin blocks f.roles f.bottom top := by
  match x with
  | .named _ name =>
    rw [Variable.shape?, Option.map_eq_some_iff] at hx
    obtain ⟨place, hplace, -⟩ := hx
    obtain ⟨b', a, hlookup, howned, -⟩ := h.visible name place hplace
    rw [Variable.locate, hlookup] at hb
    cases hb
    exact howned
  | .element _ array index =>
    rw [Variable.shape?] at hx
    split at hx
    · rename_i length s' harray _
      rw [Variable.locate] at hb
      cases ha : array.locate f.environment store with
      | error fault =>
        rw [ha] at hb
        cases hb
      | ok a =>
        cases hi : index.evaluate f.environment store with
        | error fault =>
          rw [ha, hi] at hb
          cases hb
        | ok i =>
          rw [ha, hi] at hb
          exact (h.locate_owned harray ha).element hb
    · cases hx

/-- A value in the stack is in memory. -/
lemma Binding.Owned.stored (h : b.Owned origin blocks f.roles f.bottom top)
    (hholds : f.Holds top store memory) (hfits : Word.size * top < addresses) :
    b.Stored store origin memory := by
  refine ⟨h.fits, Nat.le_trans (Nat.mul_le_mul_left _ h.below) hfits.le, fun c hc => ?_⟩
  have hbelow := h.below
  have hrole := hholds (b.location.word origin + c) (h.above.trans (Nat.le_add_right _ _)) (by omega)
  rw [h.cells c hc] at hrole
  exact hrole

/-- A memory that agrees with a frame shows the variables of its procedure. -/
lemma Frame.Valid.showsMemory (h : f.Valid p origin blocks top) (hholds : f.Holds top store memory)
    (hfits : Word.size * top < addresses) : (f.view p origin store).ShowsMemory memory := by
  intro name place hplace
  obtain ⟨b, a, hlookup, howned, hbelongs, habove⟩ := h.visible name place hplace
  refine ⟨b, hlookup, ⟨hbelongs.shape, a, hbelongs.word, fun href => ?_, hbelongs.value⟩,
    howned.stored hholds hfits⟩
  obtain ⟨hbelow, hrole⟩ := hbelongs.reference href
  have hword := hholds a habove hbelow
  rw [hrole] at hword
  exact ⟨Nat.lt_of_le_of_lt (Nat.mul_le_mul_left _ hbelongs.below) hfits, hword⟩

/-! ### More blocks -/

/-- A location in an older block stays where it is. -/
lemma Location.word_congr {l : Location} (horigin : ∀ k < blocks, origin' k = origin k)
    (h : l.block < blocks) : l.word origin' = l.word origin := by
  unfold word
  rw [horigin l.block h]

/-- A value in the stack stays there when there are more blocks. -/
lemma Binding.Owned.mono {roles : Nat → Role} {bottom : Nat}
    (h : b.Owned origin blocks roles bottom top) (horigin : ∀ k < blocks, origin' k = origin k)
    (hblocks : blocks ≤ blocks') : b.Owned origin' blocks' roles bottom top := by
  obtain ⟨hfits, habove, hbelow, hblock, hcells⟩ := h
  rw [← Location.word_congr horigin hblock] at habove hbelow hcells
  exact ⟨hfits, habove, hbelow, Nat.lt_of_lt_of_le hblock hblocks, hcells⟩

/-- A frame stays valid when there are more blocks. -/
lemma Frame.Valid.mono (h : f.Valid p origin blocks top)
    (horigin : ∀ k < blocks, origin' k = origin k) (hblocks : blocks ≤ blocks') :
    f.Valid p origin' blocks' top := by
  refine ⟨h.member, h.below, h.outgoing, h.returnTo, h.callerFp, fun a l ha => ?_,
    fun name place hplace => ?_⟩
  · obtain ⟨hword, hblock⟩ := h.cells a l ha
    exact ⟨(Location.word_congr horigin hblock).trans hword, Nat.lt_of_lt_of_le hblock hblocks⟩
  · obtain ⟨b, a, hlookup, howned, ⟨hshape, hword, hbelow, hreference, hvalue⟩, habove⟩ :=
      h.visible name place hplace
    rw [← Location.word_congr horigin howned.block] at hreference hvalue
    exact ⟨b, a, hlookup, howned.mono horigin hblocks,
      ⟨hshape, hword, hbelow, hreference, hvalue⟩, habove⟩

/-! ### Stores to the stack -/

/-- A word of the stack that nothing depends on may be written. -/
lemma Frame.Holds.write_free (h : f.Holds top store memory) {a : Nat} {w : Bits}
    (ha : f.roles a = .free) : f.Holds top store (writeWord memory a w) := by
  intro a' hbottom htop
  unfold writeWord
  by_cases heq : a' = a
  · rw [heq, ha]
    trivial
  · rw [if_neg heq]
    exact h a' hbottom htop

/-- A cell of the stack may be written together with its word. -/
lemma Frame.Holds.write_cell (h : f.Holds top store memory)
    (hvalid : f.Valid p origin blocks top) {l : Location} {w : Bits}
    (hl : f.roles (l.word origin) = .cell l) :
    f.Holds top (store.write l w) (writeWord memory (l.word origin) w) := by
  intro a hbottom htop
  have hword := h a hbottom htop
  unfold writeWord Store.write
  by_cases heq : a = l.word origin
  · rw [if_pos heq, heq, hl]
    exact (if_pos rfl).symm
  · rw [if_neg heq]
    cases hrole : f.roles a with
    | cell l' =>
      rw [hrole] at hword
      -- The word of the cell that is written is another one, so the cells differ.
      have hne : l' ≠ l := by
        rintro rfl
        exact heq (hvalid.cells a l' hrole).1.symm
      exact hword.trans (if_neg hne).symm
    | saved w' =>
      rw [hrole] at hword
      exact hword
    | free => trivial

/-- A value of one cell may be written. -/
lemma Frame.Holds.write (h : f.Holds top store memory) (hvalid : f.Valid p origin blocks top)
    (hb : b.Owned origin blocks f.roles f.bottom top) (hcells : b.shape.cells = 1) {w : Bits} :
    f.Holds top (store.write b.location w) (writeWord memory (b.location.word origin) w) :=
  h.write_cell hvalid (hb.cells 0 (hcells ▸ Nat.one_pos))

/-- Several values of one cell may be written in order. -/
lemma Frame.Holds.writeAll (hvalid : f.Valid p origin blocks top) {writes : List (Location × Bits)}
    (hwrites : ∀ x ∈ writes, f.roles (x.1.word origin) = .cell x.1)
    (h : f.Holds top store memory) :
    f.Holds top (store.writeAll writes)
      (writeWords memory (writes.map fun x => (x.1.word origin, x.2))) := by
  induction writes generalizing store memory with
  | nil => exact h
  | cons x rest ih =>
    obtain ⟨hx, hrest⟩ := List.forall_mem_cons.mp hwrites
    exact ih hrest (h.write_cell hvalid hx)

end

end TreeCompiler
