import TreeCompiler.Proofs.Meaning.Footprint
import TreeCompiler.Proofs.Meaning.Expression

/-!
# Indices are checked before they are multiplied

In the code of expressions nothing is multiplied by a constant but an index, by the size of what it
selects, and right before that the index is compared with the length of the array
(`Code.Guarded`).  No jump leads between the comparison and the multiplication, and so none of these
multiplications overflows in any state of a run, whatever the memory and the registers contain at the
start (`Machine.MultipliesSafely`, `Host.guards_after`).
-/

namespace TreeCompiler

/-- Every multiplication by a constant comes right after a comparison of the factor with a length,
which is loaded before; the length times the constant is a signed word. -/
def Code.Guarded (code : Code) : Prop :=
  ∀ target index (size : Int) rest, .arith .mul target index (.integer size) :: rest <:+ code →
    ∃ (bound : Register) (length : Nat), (length : Int) ≤ Word.max ∧ 0 ≤ size ∧
      length * size ≤ Word.max ∧
      loadInteger bound length :: .branch .geUnsigned index bound indexErrorLabel ::
        .arith .mul target index (.integer size) :: rest <:+ code

section
variable {code code' : Code}

/-- Code that does not multiply by a constant. -/
lemma Code.Guarded.of_forall
    (h : ∀ target index size, .arith .mul target index (.integer size) ∉ code) : code.Guarded :=
  fun target index size _ hsuffix =>
    absurd (hsuffix.subset List.mem_cons_self) (h target index size)

/-- Two pieces of code one after the other. -/
lemma Code.Guarded.append (h : code.Guarded) (h' : code'.Guarded) :
    Code.Guarded (code ++ code') := by
  rintro target index size rest ⟨before, heq⟩
  rcases List.append_eq_append_iff.mp heq with ⟨inner, hcode, hrest⟩ | ⟨inner, -, hcode'⟩
  · cases inner with
    | nil =>
      obtain ⟨bound, length, hlength, hsize, hproduct, hsuffix⟩ :=
        h' target index size rest (hrest ▸ List.suffix_rfl)
      exact ⟨bound, length, hlength, hsize, hproduct, hsuffix.trans (List.suffix_append _ _)⟩
    | cons i inner =>
      cases hrest
      obtain ⟨bound, length, hlength, hsize, hproduct, start, hstart⟩ :=
        h target index size inner ⟨before, hcode.symm⟩
      refine ⟨bound, length, hlength, hsize, hproduct, start, ?_⟩
      rw [← hstart]
      simp
  · obtain ⟨bound, length, hlength, hsize, hproduct, hsuffix⟩ :=
      h' target index size rest ⟨inner, hcode'.symm⟩
    exact ⟨bound, length, hlength, hsize, hproduct, hsuffix.trans (List.suffix_append _ _)⟩

/-- The code that goes to an element of an array that fits. -/
lemma guarded_indexCode {n length : Nat} {s : ValueShape} (h : (ValueShape.array length s).Fits) :
    Code.Guarded (indexCode n length (Word.size * s.cells)) := by
  obtain ⟨-, hlength, hbytes⟩ := h
  intro target index size rest hsuffix
  unfold indexCode at hsuffix
  simp only [List.suffix_cons_iff, loadInteger] at hsuffix
  rcases hsuffix with heq | heq | heq | heq | heq
  · cases heq
  · cases heq
  · cases heq
    refine ⟨bank (n + 2), length, hlength, Int.natCast_nonneg _, ?_, List.suffix_rfl⟩
    rw [← Int.natCast_mul, Nat.mul_left_comm]
    exact hbytes
  · cases heq
  · cases List.eq_nil_of_suffix_nil heq

/-- The code of an operator does not multiply by a constant. -/
lemma BinaryOp.guarded_code (op : BinaryOp) {n l : Nat} : Code.Guarded (op.code n l) := by
  refine .of_forall fun target index size h => ?_
  unfold BinaryOp.code at h
  split at h
  · cases List.mem_singleton.mp h
  · simp [compareCode, loadInteger] at h

variable {places : List (String × Place)}

/-- A variable that makes sense is of a shape that fits, if those of all places are. -/
lemma Variable.fits (hfits : ∀ name p, places.lookup name = some p → p.shape.Fits) {x : Variable}
    {s : ValueShape} (hx : x.shape? places = some s) : s.Fits := by
  match x with
  | .named _ name =>
    rw [Variable.shape?, Option.map_eq_some_iff] at hx
    obtain ⟨p, hp, rfl⟩ := hx
    exact hfits name p hp
  | .element _ array index =>
    rw [Variable.shape?] at hx
    split at hx
    · rename_i harray hindex
      cases hx
      exact (Variable.fits hfits harray).1
    · cases hx

mutual

/-- The code of a variable checks indices before it multiplies them. -/
lemma Variable.guarded_code (hfits : ∀ name p, places.lookup name = some p → p.shape.Fits)
    (x : Variable) (n l : Nat) : Code.Guarded (x.code places n l) := by
  match x with
  | .named _ name =>
    refine .of_forall fun target index size h => ?_
    rw [Variable.code] at h
    split at h
    · rw [Place.code] at h
      split at h <;> simp at h
    · cases h
  | .element _ array index =>
    rw [Variable.code]
    refine ((array.guarded_code hfits n l).append (index.guarded_code hfits _ _)).append ?_
    split
    · rename_i length s harray
      exact guarded_indexCode (Variable.fits hfits harray)
    · exact .of_forall fun _ _ _ h => by cases h

/-- The code of an expression checks indices before it multiplies them. -/
lemma Expr.guarded_code (hfits : ∀ name p, places.lookup name = some p → p.shape.Fits) (e : Expr)
    (n l : Nat) : Code.Guarded (e.code places n l) := by
  match e with
  | .int _ _ => exact .of_forall fun _ _ _ h => by cases List.mem_singleton.mp h
  | .bool _ _ => exact .of_forall fun _ _ _ h => by cases List.mem_singleton.mp h
  | .read _ source =>
    exact (source.guarded_code hfits n l).append
      (.of_forall fun _ _ _ h => by cases List.mem_singleton.mp h)
  | .negate _ operand =>
    exact (operand.guarded_code hfits n l).append
      (.of_forall fun _ _ _ h => by cases List.mem_singleton.mp h)
  | .binary _ op left right =>
    exact ((left.guarded_code hfits n l).append (right.guarded_code hfits _ _)).append
      op.guarded_code

end

end

/-! ### Running guarded code -/

/-- If the next instruction of a machine multiplies by a constant then it does not overflow. -/
def Machine.MultipliesSafely (m : Machine) : Prop :=
  ∀ target index (size : Int) rest, m.rest = .arith .mul target index (.integer size) :: rest →
    Word.min ≤ (m.get index).toInt * size ∧ (m.get index).toInt * size ≤ Word.max

/-- What holds of a machine in guarded code: at a comparison with a length that has just been loaded
the register holds the length, and no multiplication by a constant overflows. -/
structure Machine.Guards (m : Machine) (code : Code) : Prop where
  bound : ∀ index bound name rest (length : Nat),
    m.rest = .branch .geUnsigned index bound name :: rest →
    loadInteger bound length :: m.rest <:+ code → m.get bound = BitVec.ofNat 32 length
  product : m.MultipliesSafely

/-- The product of a factor below the length and a constant is a signed word, if that of the length
is. -/
lemma product_bounds {i : Bits} {length : Nat} {size : Int} (hlength : (length : Int) ≤ Word.max)
    (hsize : 0 ≤ size) (hproduct : length * size ≤ Word.max) (hlt : i.toNat < length) :
    Word.min ≤ i.toInt * size ∧ i.toInt * size ≤ Word.max := by
  obtain ⟨hnonneg, hle⟩ := (index_in_range hlength).mpr hlt
  have hmin : Word.min ≤ 0 := by decide
  exact ⟨hmin.trans (Int.mul_nonneg hnonneg hsize),
    (Int.mul_le_mul_of_nonneg_right hle.le hsize).trans hproduct⟩

/-- Only one instruction comes before a rest of the code. -/
lemma eq_of_cons_suffix {code rest : Code} {i j : Instruction} (hi : i :: rest <:+ code)
    (hj : j :: rest <:+ code) : i = j := by
  have hsuffix := List.suffix_of_suffix_length_le hi hj (by simp)
  exact (List.cons.inj (hsuffix.eq_of_length (by simp))).1

/-- A place that a label leads to starts with the label. -/
lemma exists_of_findLabel {name : String} {code rest : Code} (h : findLabel name code = some rest) :
    ∃ rest', rest = .label name :: rest' := by
  induction code with
  | nil => cases h
  | cons i code ih =>
    rw [findLabel] at h
    split at h
    · rename_i hi
      cases h
      exact ⟨code, by rw [hi]⟩
    · exact ih h

namespace Host

variable {code : Code} {host : Host code} {m : Machine} {n : Nat}

/-- A step passes an instruction, or it leads to a label, or it leaves the machine where it is. -/
lemma rest_step (hcode : Code.WritesFrom n code) (hsuffix : m.rest <:+ code) :
    (∃ i, m.rest = i :: (host.step m).rest) ∨
    (∃ name rest, (host.step m).rest = .label name :: rest) ∨
    ((host.step m).rest = m.rest ∧ ∀ r, (host.step m).get r = m.get r) := by
  rcases host.step_cases hcode hsuffix with
    ⟨i, rest, hrest, hstep | ⟨k, w, -, -, hstep⟩⟩ | ⟨name, rest, hfind, hstep⟩ | ⟨status, hstep⟩
  · exact .inl ⟨i, by rw [hstep, hrest]; rfl⟩
  · exact .inl ⟨i, by rw [hstep, hrest]; rfl⟩
  · obtain ⟨rest', rfl⟩ := exists_of_findLabel hfind
    exact .inr (.inl ⟨name, rest', by rw [hstep]; rfl⟩)
  · rw [hstep]
    exact .inr (.inr ⟨rfl, fun _ => rfl⟩)

/-- A machine that passes an instruction is running. -/
lemma status_of_rest_step {i : Instruction} (h : m.rest = i :: (host.step m).rest) :
    m.status = .running := by
  by_contra hended
  rw [step_of_ended hended] at h
  exact List.cons_ne_self _ _ h.symm

/-- A step in guarded code. -/
lemma guards_step (hcode : Code.WritesFrom n code) (hguarded : code.Guarded) (h : m.Guards code)
    (hsuffix : m.rest <:+ code) (hsuffix' : (host.step m).rest <:+ code) :
    (host.step m).Guards code := by
  have hstep := host.rest_step hcode hsuffix
  constructor
  · intro index bound name rest length hbranch hload
    rcases hstep with ⟨i, hi⟩ | ⟨label, rest', hlabel⟩ | ⟨hrest, hget⟩
    · -- The instruction that is passed is the one that loads the length.
      obtain rfl : i = loadInteger bound length := eq_of_cons_suffix (hi ▸ hsuffix) hload
      obtain ⟨k, -, hk, rfl⟩ := hcode _ (hload.subset List.mem_cons_self)
      rw [step_loadInteger hi (bank_ne hk).2.2.1 (status_of_rest_step hi), Machine.get_goTo,
        Machine.get_set_self (bank_ne hk).1, BitVec.ofInt_natCast]
    · rw [hlabel] at hbranch
      cases hbranch
    · rw [hget]
      rw [hrest] at hbranch hload
      exact h.bound index bound name rest length hbranch hload
  · intro target index size rest hmul
    rcases hstep with ⟨i, hi⟩ | ⟨label, rest', hlabel⟩ | ⟨hrest, hget⟩
    · -- The instruction that is passed is the comparison.
      rw [hmul] at hsuffix' hi
      obtain ⟨bound, length, hlength, hsize, hproduct, hload⟩ :=
        hguarded target index size rest hsuffix'
      obtain rfl : i = .branch .geUnsigned index bound indexErrorLabel :=
        eq_of_cons_suffix (hi ▸ hsuffix) ((List.suffix_cons _ _).trans hload)
      have hbound := h.bound index bound _ _ length hi (by rw [hi]; exact hload)
      have hrun : m.status = .running := status_of_rest_step (hmul.symm ▸ hi)
      cases hholds : BranchOp.geUnsigned.holds (m.get index) (m.get bound) with
      | true =>
        rw [step_branch_of_holds hi hholds hrun, jump] at hmul
        split at hmul
        · rename_i target htarget
          obtain ⟨rest', rfl⟩ := exists_of_findLabel htarget
          cases hmul
        · have hrest : m.rest = _ := hmul
          rw [hi] at hrest
          cases hrest
      | false =>
        rw [step_branch_of_not_holds hi hholds hrun, Machine.get_goTo]
        rw [hbound, BranchOp.holds_geUnsigned hlength, decide_eq_false_iff_not, Nat.not_le] at hholds
        exact product_bounds hlength hsize hproduct hholds
    · rw [hlabel] at hmul
      cases hmul
    · rw [hget]
      exact h.product target index size rest (hrest ▸ hmul)

/-- No multiplication by a constant overflows in a run of guarded code from its start. -/
lemma guards_after (hcode : Code.WritesFrom n code) (hguarded : code.Guarded) (hrest : m.rest = code)
    (k : Nat) : (host.after m k).Guards code := by
  induction k with
  | zero =>
    have hlong : ∀ {i : Instruction}, ¬i :: code <:+ code := fun h => by
      have hle := h.length_le
      rw [List.length_cons] at hle
      omega
    refine ⟨fun index bound name rest length _ hload => ?_, fun target index size rest hmul => ?_⟩
    · exact absurd (hrest ▸ hload) hlong
    · have hmul : code = _ := hrest.symm.trans hmul
      obtain ⟨bound, length, -, -, -, hsuffix⟩ :=
        hguarded target index size rest (hmul ▸ List.suffix_rfl)
      rw [← hmul] at hsuffix
      exact absurd ((List.suffix_cons _ _).trans hsuffix) hlong
  | succ k ih =>
    have hsuffix : m.rest <:+ code := hrest ▸ List.suffix_rfl
    exact guards_step hcode hguarded ih (preserves_after hcode hsuffix k).2
      (preserves_after hcode hsuffix (k + 1)).2

end Host

end TreeCompiler
