import Mathlib.Data.List.Chain
import TreeCompiler.Frame.Picture
import TreeCompiler.Proofs.Frame.Placement

/-!
# Reading pictures of frames

The note to the right of a row tells how far the row lies from one of the two registers.
`PictureRow.annotation?` is the note as data, and `PictureRow.note_eq` says that it is what is
printed; there is none where the note is empty, and none where it is `NULL`, `UNKNOWN`,
`INCONSISTENT(…)` or a negative number.  Rows are sorted by negated offsets, which puts the highest
one first as long as no offset is the smallest word (`sortRows_of_descending`,
`sortRows_of_ascending`).
-/

namespace TreeCompiler

/-! ### Negated words -/

/-- A word other than the smallest one is negated as an integer. -/
lemma Word.negate_of_lt {i : Int} (h : Word.min < i) : Word.negate i = -i :=
  if_neg (Int.ne_of_gt h)

/-! ### Notes -/

/-- Where a row lies: at a register, or so many bytes above or below it. -/
inductive Annotation where
  | framePointer
  | aboveFramePointer (distance : Nat)
  | belowFramePointer (distance : Nat)
  | stackPointer
  | aboveStackPointer (distance : Nat)
deriving DecidableEq

namespace Annotation

/-- How an annotation is printed. -/
def text : Annotation → String
  | framePointer => "<- FP"
  | aboveFramePointer distance => "<- FP + " ++ toString distance
  | belowFramePointer distance => "<- FP - " ++ toString distance
  | stackPointer => "<- SP"
  | aboveStackPointer distance => "<- SP + " ++ toString distance

/-- The address that an annotation means, when the registers hold two addresses. -/
def address (fp sp : Int) : Annotation → Int
  | framePointer => fp
  | aboveFramePointer distance => fp + distance
  | belowFramePointer distance => fp - distance
  | stackPointer => sp
  | aboveStackPointer distance => sp + distance

end Annotation

namespace PictureRow

/-- Where a row says that it lies, if it does. -/
def annotation? : PictureRow → Option Annotation
  | parameter _ own listed =>
    if own = listed then (own.bind Int.toNat?).map .aboveFramePointer else none
  | frameTop => some .framePointer
  | localVar _ offset => ((offset.map Word.negate).bind Int.toNat?).map .belowFramePointer
  | oldFramePointer offset => (offset.bind Int.toNat?).map .aboveStackPointer
  | oldReturnAddress offset => ((offset.map Word.negate).bind Int.toNat?).map .belowFramePointer
  | argument number => some (.aboveStackPointer ((number - 1) * Word.size))
  | frameBottom => some .stackPointer
  | beyond | rule | outgoing | unknownSize => none

/-- An offset that is a natural number is printed as that number. -/
private lemma shown_of_toNat? {offset : Option Int} {n : Nat}
    (h : offset.bind Int.toNat? = some n) :
    Word.showOption offset = toString n ∧ showKnown offset = toString n := by
  obtain ⟨i, rfl, hi⟩ := Option.bind_eq_some_iff.mp h
  cases Int.mem_toNat?.mp hi
  exact ⟨rfl, rfl⟩

/-- The annotation of a row is what its note says. -/
theorem note_eq {row : PictureRow} {a : Annotation} (h : row.annotation? = some a) :
    row.note = a.text := by
  cases row with
  | parameter name own listed =>
    rw [annotation?] at h
    split at h
    · rename_i heq
      obtain ⟨n, hn, rfl⟩ := Option.map_eq_some_iff.mp h
      rw [note, if_pos heq, (shown_of_toNat? hn).1, Annotation.text]
    · cases h
  | localVar name offset =>
    obtain ⟨n, hn, rfl⟩ := Option.map_eq_some_iff.mp h
    rw [note, (shown_of_toNat? hn).1, Annotation.text]
  | oldFramePointer offset =>
    obtain ⟨n, hn, rfl⟩ := Option.map_eq_some_iff.mp h
    rw [note, (shown_of_toNat? hn).2, Annotation.text]
  | oldReturnAddress offset =>
    obtain ⟨n, hn, rfl⟩ := Option.map_eq_some_iff.mp h
    rw [note, (shown_of_toNat? hn).2, Annotation.text]
  | frameTop | argument _ | frameBottom =>
    cases h
    rfl
  | beyond | rule | outgoing | unknownSize => cases h

/-- A row with the address that its annotation means. -/
def place? (fp sp : Int) (row : PictureRow) : Option (PictureRow × Int) :=
  row.annotation?.map fun a => (row, a.address fp sp)

section
variable {fp sp i : Int} {name : String}

/-- A parameter at or above the frame pointer. -/
lemma place?_parameter (h : 0 ≤ i) : (parameter name (some i) (some i)).place? fp sp =
    some (parameter name (some i) (some i), fp + i) := by
  obtain ⟨n, rfl⟩ := Int.eq_ofNat_of_zero_le h
  rw [place?, annotation?, if_pos rfl]
  rfl

/-- A local variable at or below the frame pointer. -/
lemma place?_localVar (hmin : Word.min < i) (h : i ≤ 0) :
    (localVar name (some i)).place? fp sp = some (localVar name (some i), fp + i) := by
  obtain ⟨n, hn⟩ := Int.eq_ofNat_of_zero_le (Int.neg_nonneg_of_nonpos h)
  obtain rfl : i = -(n : Int) := by omega
  rw [place?, annotation?, Option.map_some, Word.negate_of_lt hmin, Int.neg_neg]
  rfl

/-- The saved frame pointer above the stack pointer. -/
lemma place?_oldFramePointer (h : 0 ≤ i) : (oldFramePointer (some i)).place? fp sp =
    some (oldFramePointer (some i), sp + i) := by
  obtain ⟨n, rfl⟩ := Int.eq_ofNat_of_zero_le h
  rfl

/-- The saved return address below the frame pointer. -/
lemma place?_oldReturnAddress (hmin : Word.min < i) (h : i ≤ 0) :
    (oldReturnAddress (some i)).place? fp sp = some (oldReturnAddress (some i), fp + i) := by
  obtain ⟨n, hn⟩ := Int.eq_ofNat_of_zero_le (Int.neg_nonneg_of_nonpos h)
  obtain rfl : i = -(n : Int) := by omega
  rw [place?, annotation?, Option.map_some, Word.negate_of_lt hmin, Int.neg_neg]
  rfl

end

end PictureRow

/-! ### The rows of a procedure -/

/-- The place that a scope tells for a variable. -/
lemma Tables.bind_offset_eq_some {t : Tables} {id : ScopeId} {d : VariableDecl} {i : Int} :
    ((t.scope id).findVar? d.name).bind Slot.offset = some i ↔ t.Places id d i := by
  rw [Option.bind_eq_some_iff]
  simp only [Tables.findVar?_eq_some, Tables.Places]

/-! ### Sorting rows -/

section
variable {absent : Int} {rows : List (Option Int × PictureRow)} {offsets : List Int}

/-- Sorting rows keeps the rows. -/
lemma mem_sortRows {row : PictureRow} :
    row ∈ sortRows absent rows ↔ ∃ offset, (offset, row) ∈ rows := by
  unfold sortRows
  simp only [List.mem_map, List.mem_mergeSort, Prod.exists, exists_eq_right]

/-- What keeps a list of rows in order. -/
private lemma sorted_of_offsets (R : Int → Int → Prop) (h : rows.map Prod.fst = offsets.map some)
    (hmin : ∀ i ∈ offsets, Word.min < i) (hsorted : offsets.Pairwise fun i j => R (-i) (-j)) :
    rows.Pairwise fun x y => R (sortKey absent x.1) (sortKey absent y.1) := by
  have hkeys : (offsets.map some).Pairwise fun x y => R (sortKey absent x) (sortKey absent y) := by
    refine List.pairwise_map.mpr (hsorted.imp_of_mem fun {i j} hi hj hij => ?_)
    unfold sortKey
    rwa [Option.map_some, Option.map_some, Option.getD_some, Option.getD_some,
      Word.negate_of_lt (hmin i hi), Word.negate_of_lt (hmin j hj)]
  rw [← h, List.pairwise_map] at hkeys
  exact hkeys

/-- Rows whose offsets go down stay in order. -/
lemma sortRows_of_descending (h : rows.map Prod.fst = offsets.map some)
    (hmin : ∀ i ∈ offsets, Word.min < i) (hsorted : offsets.Pairwise fun i j => j ≤ i) :
    sortRows absent rows = rows.map Prod.snd := by
  have hrows : rows.Pairwise fun x y => sortKey absent x.1 ≤ sortKey absent y.1 :=
    sorted_of_offsets (· ≤ ·) h hmin (hsorted.imp fun hij => Int.neg_le_neg hij)
  unfold sortRows
  rw [List.mergeSort_of_pairwise (hrows.imp fun hxy => decide_eq_true hxy)]

/-- Rows whose offsets go up are reversed. -/
lemma sortRows_of_ascending (h : rows.map Prod.fst = offsets.map some)
    (hmin : ∀ i ∈ offsets, Word.min < i) (hsorted : offsets.Pairwise fun i j => i < j) :
    sortRows absent rows = (rows.map Prod.snd).reverse := by
  let before (x y : Option Int × PictureRow) : Bool := sortKey absent x.1 ≤ sortKey absent y.1
  have hrows : rows.reverse.Pairwise fun x y => sortKey absent x.1 < sortKey absent y.1 :=
    List.pairwise_reverse.mpr <|
      sorted_of_offsets (fun i j => j < i) h hmin (hsorted.imp fun hij => Int.neg_lt_neg hij)
  have hsort : (rows.mergeSort before).Pairwise fun x y => before x y = true :=
    List.pairwise_mergeSort
      (fun x y z hxy hyz => decide_eq_true ((of_decide_eq_true hxy).trans (of_decide_eq_true hyz)))
      (fun x y => by simpa [before] using Int.le_total (sortKey absent x.1) (sortKey absent y.1)) rows
  -- Different rows have different keys, so that there is only one way to sort them.
  have hkeys : (rows.reverse.map fun x => sortKey absent x.1).Nodup :=
    List.pairwise_map.mpr (hrows.imp Int.ne_of_lt)
  have hperm : rows.reverse.Perm (rows.mergeSort before) :=
    (List.reverse_perm rows).trans (List.mergeSort_perm rows _).symm
  have hsame : rows.reverse = rows.mergeSort before :=
    hperm.eq_of_pairwise (fun x y hx hy hxy hyx =>
      List.inj_on_of_nodup_map hkeys hx (hperm.mem_iff.mpr hy)
        (Int.le_antisymm (of_decide_eq_true hxy) (of_decide_eq_true hyx)))
      (hrows.imp fun hxy => decide_eq_true (Int.le_of_lt hxy)) hsort
  rw [← List.map_reverse, hsame]
  rfl

end

end TreeCompiler
