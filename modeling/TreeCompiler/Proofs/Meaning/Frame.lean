import TreeCompiler.Proofs.Meaning.Expression

/-!
# Frames in words

A frame takes up so many words below the frame pointer of its procedure.  From the stack pointer
upward there are the words for outgoing arguments, the return address, the caller's frame pointer,
and the local variables; the parameters of the procedure are above the frame pointer, among the
outgoing words of the caller.  `Procedure.slots` lists the words of all its variables, which are
apart from each other and lie at the offsets that the code has for them.
-/

namespace TreeCompiler

/-! ### Frames in words -/

/-- How many cells a variable has. -/
def VariableDecl.cells (names : List (String × ValueShape)) (d : VariableDecl) : Nat :=
  ((d.type.shape? names).map ValueShape.cells).getD 0

/-- Two stretches of words that have no word in common. -/
def Apart (s t : Nat × Nat) : Prop := s.1 + s.2 ≤ t.1 ∨ t.1 + t.2 ≤ s.1

/-- The words of variables that lie below a word, each one directly below the one before: where they
start, and how many they are. -/
def slotsBelow (names : List (String × ValueShape)) : Nat → List VariableDecl → List (Nat × Nat)
  | _, [] => []
  | a, d :: rest => (a - d.cells names, d.cells names) :: slotsBelow names (a - d.cells names) rest

/-- How many cells variables have in all. -/
def cellsOf (names : List (String × ValueShape)) (l : List VariableDecl) : Nat :=
  (l.map (VariableDecl.cells names)).sum

namespace Procedure

variable (names : List (String × ValueShape)) (signature : String → Option (List Formal))

/-- The words of the variables of a procedure whose frame pointer is at a word. -/
def slots (q : Procedure) (fp : Nat) : List (Nat × Nat) :=
  (List.range' fp q.parameters.length).map (fun a => (a, 1)) ++
    slotsBelow names fp (q.locals.map LocalVar.decl)

/-- How many cells the local variables have. -/
def localCells (q : Procedure) : Nat := cellsOf names (q.locals.map LocalVar.decl)

/-- How many words there are for outgoing arguments. -/
def outgoingWords (q : Procedure) : Nat :=
  (q.calls.map fun c => ((signature c.1).getD []).length).foldr max 0

/-- How many words the frame of a procedure has. -/
def frameWords (q : Procedure) : Nat := q.localCells names + q.outgoingWords signature + 2

end Procedure

section
variable {names : List (String × ValueShape)} {signature : String → Option (List Formal)}

/-- The cells of one variable more. -/
lemma cellsOf_cons {d : VariableDecl} {rest : List VariableDecl} :
    cellsOf names (d :: rest) = d.cells names + cellsOf names rest := by
  unfold cellsOf
  rw [List.map_cons, List.sum_cons]

/-- The bytes of variables. -/
lemma bytesOf_eq {l : List VariableDecl} : bytesOf names l = Word.size * cellsOf names l := by
  unfold bytesOf cellsOf
  induction l with
  | nil => rfl
  | cons d rest ih =>
    rw [List.map_cons, List.map_cons, List.sum_cons, List.sum_cons, ih, Nat.mul_add]
    rfl

/-- The bytes of a procedure's local variables. -/
lemma Procedure.localBytes_eq {q : Procedure} :
    q.localBytes names = Word.size * q.localCells names :=
  bytesOf_eq

/-- The bytes for outgoing arguments. -/
lemma Procedure.outgoingBytes_eq {q : Procedure} :
    q.outgoingBytes signature = Word.size * q.outgoingWords signature := by
  unfold outgoingBytes outgoingWords
  induction q.calls with
  | nil => rfl
  | cons c rest ih =>
    rw [List.map_cons, List.map_cons, List.foldr_cons, List.foldr_cons, ih]
    exact (Nat.mul_max_mul_left _ _ _)

/-- The bytes of a frame. -/
lemma Procedure.frameBytes_eq {q : Procedure} :
    q.frameBytes names signature = Word.size * q.frameWords names signature := by
  unfold frameBytes frameWords
  rw [localBytes_eq, outgoingBytes_eq, ← Nat.mul_add, Nat.mul_comm 2, ← Nat.mul_add]

/-- There are words enough for the arguments of every callee. -/
lemma Procedure.length_le_outgoingWords {q : Procedure} {c : String × List Expr}
    (hc : c ∈ q.calls) {formals : List Formal} (hformals : signature c.1 = some formals) :
    formals.length ≤ q.outgoingWords signature := by
  have hbytes := argumentBytes_le hc hformals
  rw [outgoingBytes_eq] at hbytes
  exact Nat.le_of_mul_le_mul_left hbytes (by decide)

/-! ### The words of variables -/

/-- The words of variables below a word lie in a stretch below it. -/
lemma slotsBelow_bounds {l : List VariableDecl} {a : Nat} (h : cellsOf names l ≤ a)
    {s : Nat × Nat} (hs : s ∈ slotsBelow names a l) :
    a - cellsOf names l ≤ s.1 ∧ s.1 + s.2 ≤ a := by
  induction l generalizing a with
  | nil => cases hs
  | cons d rest ih =>
    rw [cellsOf_cons] at h ⊢
    rw [slotsBelow] at hs
    rcases List.mem_cons.mp hs with rfl | hs
    · dsimp only
      omega
    · have hrest := ih (by omega) hs
      omega

/-- The words of variables below a word are apart. -/
lemma slotsBelow_apart {l : List VariableDecl} {a : Nat} (h : cellsOf names l ≤ a) :
    (slotsBelow names a l).Pairwise Apart := by
  induction l generalizing a with
  | nil => exact .nil
  | cons d rest ih =>
    rw [cellsOf_cons] at h
    rw [slotsBelow, List.pairwise_cons]
    refine ⟨fun s hs => .inr ?_, ih (by omega)⟩
    exact (slotsBelow_bounds (by omega) hs).2

/-- The words of variables below a word start at the offsets of the variables. -/
lemma slotsBelow_offsets {l : List VariableDecl} {a fp : Nat} {offset : Int}
    (h : cellsOf names l ≤ a) (hword : (Word.size * a : Int) = Word.size * fp + offset) :
    List.Forall₂ (fun (s : Nat × Nat) (o : Int) => (Word.size * s.1 : Int) = Word.size * fp + o)
      (slotsBelow names a l) (offsetsBelow names offset l) := by
  induction l generalizing a offset with
  | nil => exact .nil
  | cons d rest ih =>
    rw [cellsOf_cons] at h
    have hbytes : d.bytes names = Word.size * d.cells names := rfl
    have hfirst : (Word.size * (a - d.cells names : Nat) : Int) =
        Word.size * fp + (offset - d.bytes names) := by
      have hsize : (Word.size : Int) = 4 := rfl
      rw [hbytes]
      push_cast
      rw [hsize] at hword ⊢
      omega
    rw [slotsBelow, offsetsBelow]
    exact .cons hfirst (ih (by omega) hfirst)

/-- Every variable below a word has as many words as cells. -/
lemma slotsBelow_sizes {l : List VariableDecl} {a : Nat} :
    List.Forall₂ (fun (d : VariableDecl) (s : Nat × Nat) => s.2 = d.cells names) l
      (slotsBelow names a l) := by
  induction l generalizing a with
  | nil => exact .nil
  | cons d rest ih =>
    rw [slotsBelow]
    exact .cons rfl ih

/-- Parameters have a word each, from the frame pointer upward. -/
lemma forall₂_wordsFrom {fp a n : Nat} {offset : Int}
    (hword : (Word.size * a : Int) = Word.size * fp + offset) :
    List.Forall₂ (fun (s : Nat × Nat) (o : Int) => (Word.size * s.1 : Int) = Word.size * fp + o)
      ((List.range' a n).map fun a => (a, 1)) (wordsFrom offset n) := by
  induction n generalizing a offset with
  | zero => exact .nil
  | succ n ih =>
    have hnext : (Word.size * (a + 1 : Nat) : Int) = Word.size * fp + (offset + Word.size) := by
      push_cast
      rw [mul_add, hword]
      ring
    exact .cons hword (ih hnext)

namespace Procedure

variable {q : Procedure} {fp : Nat}

/-- A procedure has as many words of variables as it has variables. -/
lemma length_slots : (q.slots names fp).length = q.decls.length := by
  have hsizes : List.Forall₂ (fun (d : VariableDecl) (s : Nat × Nat) => s.2 = d.cells names)
      (q.locals.map LocalVar.decl) (slotsBelow names fp (q.locals.map LocalVar.decl)) :=
    slotsBelow_sizes
  have hlocals := hsizes.length_eq
  unfold slots decls
  rw [List.length_append, List.length_append, ← hlocals, List.length_map, List.length_map,
    List.length_range', List.length_map]

/-- The words of a parameter. -/
lemma getElem?_slots {k : Nat} (hk : k < q.parameters.length) :
    (q.slots names fp)[k]? = some (fp + k, 1) := by
  unfold slots
  rw [List.getElem?_append_left (by simpa using hk), List.getElem?_map,
    List.getElem?_range' hk, Nat.one_mul]
  rfl

/-- Where the words of the variables of a procedure are. -/
lemma slots_bounds (h : q.localCells names ≤ fp) {s : Nat × Nat} (hs : s ∈ q.slots names fp) :
    fp - q.localCells names ≤ s.1 ∧ s.1 + s.2 ≤ fp + q.parameters.length := by
  unfold slots at hs
  rcases List.mem_append.mp hs with hs | hs
  · obtain ⟨a, ha, rfl⟩ := List.mem_map.mp hs
    rw [List.mem_range'_1] at ha
    dsimp only
    omega
  · have hbounds := slotsBelow_bounds h hs
    unfold localCells
    omega

/-- The variables of a procedure have words of their own. -/
lemma slots_apart (h : q.localCells names ≤ fp) : (q.slots names fp).Pairwise Apart := by
  unfold slots
  rw [List.pairwise_append]
  refine ⟨?_, slotsBelow_apart h, fun s hs s' hs' => .inr ?_⟩
  · rw [List.pairwise_map]
    exact (List.pairwise_lt_range' 1).imp fun hlt => .inl hlt
  · obtain ⟨a, ha, rfl⟩ := List.mem_map.mp hs
    rw [List.mem_range'_1] at ha
    exact (slotsBelow_bounds h hs').2.trans ha.1

/-- The words of the variables of a procedure are where its code expects them. -/
lemma slots_offsets (h : q.localCells names ≤ fp) :
    List.Forall₂ (fun (s : Nat × Nat) (o : Int) => (Word.size * s.1 : Int) = Word.size * fp + o)
      (q.slots names fp) (q.offsets names) :=
  List.rel_append (forall₂_wordsFrom (Int.add_zero _).symm)
    (slotsBelow_offsets h (Int.add_zero _).symm)

end Procedure

end

end TreeCompiler
