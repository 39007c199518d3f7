import TreeCompiler.Proofs.Meaning.Execution

/-!
# The code of expressions

The code of a variable leaves the address of the variable in the next register of the bank, and that
of an expression the value of the expression; both change nothing but registers from there on, and
go to the index error exactly if the evaluation meets an index that is out of range.

All that is needed of the state is that the memory shows the store (`View.Shows`): every variable
that the code knows lies at its place, or its place holds the address of what it stands for, and the
cells of what it stands for are in memory.
-/

namespace TreeCompiler

/-! ### Memory and store -/

/-- The word of the memory in which a location is kept, given the words at which blocks start. -/
def Location.word (origin : Nat → Nat) (l : Location) : Nat := origin l.block + l.cell

/-- The word of a cell further on. -/
@[simp] lemma Location.word_shift {origin : Nat → Nat} {l : Location} {n : Nat} :
    (l.shift n).word origin = l.word origin + n :=
  (Nat.add_assoc _ _ _).symm

/-- A value is in memory: its cells are, and its addresses do not wrap around. -/
structure Binding.Stored (store : Store) (origin : Nat → Nat) (memory : Nat → Bits)
    (b : Binding) : Prop where
  fits : b.shape.Fits
  bounded : Word.size * (b.location.word origin + b.shape.cells) ≤ addresses
  cells : ∀ c < b.shape.cells, memory (b.location.word origin + c) = store (b.location.shift c)

/-- The first cell of a value in memory has an address. -/
lemma Binding.Stored.word_lt {store : Store} {origin : Nat → Nat} {memory : Nat → Bits}
    {b : Binding} (hb : b.Stored store origin memory) (hcells : 0 < b.shape.cells) :
    Word.size * b.location.word origin < addresses := by
  refine Nat.lt_of_lt_of_le (Nat.mul_lt_mul_of_pos_left ?_ (by decide)) hb.bounded
  omega

/-- What a place shows of what its variable stands for: a reference holds the address, any other
variable lies there itself. -/
structure Place.Shows (fp : Nat) (origin : Nat → Nat) (memory : Nat → Bits) (p : Place)
    (b : Binding) : Prop where
  shape : b.shape = p.shape
  word : ∃ a : Nat, (Word.size * a : Int) = Word.size * fp + p.offset ∧
    (p.isReference = true →
      Word.size * a < addresses ∧ memory a = wordAt (b.location.word origin)) ∧
    (p.isReference = false → a = b.location.word origin)

/-- How a procedure that runs sees its variables: the places that its code knows, what its names
stand for, the store, the words at which blocks start, and the word of its frame pointer. -/
structure View where
  places : List (String × Place)
  environment : Environment
  store : Store
  origin : Nat → Nat
  fp : Nat

/-- A memory shows the variables of a procedure that runs. -/
def View.ShowsMemory (v : View) (memory : Nat → Bits) : Prop :=
  ∀ name p, v.places.lookup name = some p → ∃ b, v.environment.lookup name = some b ∧
    p.Shows v.fp v.origin memory b ∧ b.Stored v.store v.origin memory

/-- A machine shows the variables of a procedure that runs. -/
structure View.Shows (v : View) (m : Machine) : Prop where
  fp : m.get .fp = wordAt v.fp
  memory : v.ShowsMemory m.memory

/-- What a machine shows is not changed by the code of expressions. -/
lemma View.Shows.keeps {v : View} {m m' : Machine} (h : v.Shows m) {low high : Nat}
    (hkeeps : m.Keeps m' low high) (hhigh : high ≤ bankSize) : v.Shows m' := by
  refine ⟨?_, ?_⟩
  · rw [hkeeps.fp hhigh]
    exact h.fp
  · rw [hkeeps.memory]
    exact h.memory

/-! ### Elements of arrays -/

/-- A signed index is in range exactly if it is below the length as an unsigned word. -/
lemma index_in_range {i : Bits} {length : Nat} (h : (length : Int) ≤ Word.max) :
    (0 ≤ i.toInt ∧ i.toInt < length) ↔ i.toNat < length := by
  rw [Word.max] at h
  rw [BitVec.toInt_eq_toNat_cond]
  have hi := i.isLt
  split <;> omega

/-- The branch of a check is taken if the index is not below the length as an unsigned word. -/
lemma BranchOp.holds_geUnsigned {i : Bits} {length : Nat} (h : (length : Int) ≤ Word.max) :
    BranchOp.geUnsigned.holds i (BitVec.ofNat 32 length) = decide (length ≤ i.toNat) := by
  have hword : length < 2 ^ 32 := by
    rw [Word.max] at h
    omega
  rw [BranchOp.holds, BitVec.ule_eq_decide, BitVec.toNat_ofNat, Nat.mod_eq_of_lt hword]

/-- An element of a value in memory is in memory. -/
lemma Binding.Stored.element {store : Store} {origin : Nat → Nat} {memory : Nat → Bits}
    {b : Binding} (hb : b.Stored store origin memory) {length : Nat} {element : ValueShape}
    (hshape : b.shape = .array length element) {i : Nat} (hi : i < length) :
    (Binding.mk element (b.location.shift (i * element.cells))).Stored store origin memory := by
  obtain ⟨hfits, hbounded, hcells⟩ := hb
  rw [hshape] at hfits hbounded hcells
  have hword : (b.location.shift (i * element.cells)).word origin =
      b.location.word origin + i * element.cells := Location.word_shift
  have hend : i * element.cells + element.cells ≤ length * element.cells := by
    rw [← Nat.succ_mul]
    exact Nat.mul_le_mul_right _ hi
  refine ⟨hfits.1, ?_, fun c hc => ?_⟩
  · refine Nat.le_trans (Nat.mul_le_mul_left _ ?_) hbounded
    rw [ValueShape.cells, hword, Nat.add_assoc]
    exact Nat.add_le_add_left hend _
  · dsimp only
    rw [hword, Nat.add_assoc, hcells _ (by rw [ValueShape.cells]; dsimp only at hc; omega)]
    unfold Location.shift
    dsimp only
    rw [Nat.add_assoc]

section
variable {code : Code} (host : Host code) {m : Machine} {rest : Code}

/-- The code that adds an index times the size of the elements to an address. -/
lemma scaleCode_reaches (hrun : m.status = .running) {n w cells : Nat} {i : Bits}
    (hn : n + 3 ≤ bankSize) (hbase : m.get (bank n) = wordAt w) (hindex : m.get (bank (n + 1)) = i)
    (hrest : m.rest =
      .arith .mul (bank (n + 1)) (bank (n + 1)) (.integer (Word.size * cells : Nat)) ::
        .arith .add (bank n) (bank n) (.register (bank (n + 1))) :: rest) :
    ∃ m', host.Reaches m m' ∧ m.Keeps m' n (n + 3) ∧ m'.rest = rest ∧
      m'.get (bank n) = wordAt (w + i.toNat * cells) := by
  have hn₀ : n < bankSize := by omega
  have hn₁ : n + 1 < bankSize := by omega
  obtain ⟨scaled, hscaled⟩ : ∃ scaled, i * BitVec.ofInt 32 ((Word.size * cells : Nat) : Int) = scaled :=
    ⟨_, rfl⟩
  obtain ⟨m₁, hm₁⟩ : ∃ m₁, (m.set (bank (n + 1)) scaled).goTo
      (.arith .add (bank n) (bank n) (.register (bank (n + 1))) :: rest) = m₁ := ⟨_, rfl⟩
  have hmul : host.step m = m₁ := by
    rw [← hm₁]
    refine Host.step_arith hrest (bank_ne hn₁).2.2.1 ?_ hrun
    rw [hindex, Machine.operand, ArithOp.apply, hscaled]
  have hkeeps₁ : m.Keeps m₁ n (n + 3) := hm₁ ▸ Machine.Keeps.set hrun (by omega) (by omega)
  have hscaled₁ : m₁.get (bank (n + 1)) = scaled := by
    rw [← hm₁, Machine.get_goTo, Machine.get_set_self (bank_ne hn₁).1]
  have hbase₁ : m₁.get (bank n) = wordAt w := by
    rw [← hm₁, Machine.get_goTo, Machine.get_bank_set_bank hn₀ hn₁, if_neg (by omega), hbase]
  have hadd : host.step m₁ = (m₁.set (bank n) (wordAt (w + i.toNat * cells))).goTo rest := by
    refine Host.step_arith (by rw [← hm₁]; rfl) (bank_ne hn₀).2.2.1 ?_ hkeeps₁.status
    rw [hbase₁, Machine.operand, hscaled₁, ArithOp.apply, ← hscaled, wordAt_add_mul]
  refine ⟨_, (Host.Advances.one hmul hrun).reaches.trans hkeeps₁.events
    (Host.Advances.one hadd hkeeps₁.status).reaches, ?_, rfl, ?_⟩
  · exact hkeeps₁.append (Machine.Keeps.set hkeeps₁.status (Nat.le_refl n) (by omega))
  · rw [Machine.get_goTo, Machine.get_set_self (bank_ne hn₀).1]

/-- The code that goes from the address of an array to that of an element. -/
lemma indexCode_evaluates (hlinked : Linked code) (hrun : m.status = .running)
    {store : Store} {origin : Nat → Nat} {b : Binding} (hb : b.Stored store origin m.memory)
    {length : Nat} {element : ValueShape} (hshape : b.shape = .array length element) {n : Nat}
    (hn : n + 3 ≤ bankSize) (hbase : m.get (bank n) = wordAt (b.location.word origin)) {i : Bits}
    (hindex : m.get (bank (n + 1)) = i)
    (hrest : m.rest = indexCode n length (Word.size * element.cells) ++ rest) :
    host.Evaluates m (b.element i) fun b' m' => b'.shape = element ∧
      b'.Stored store origin m.memory ∧ m'.get (bank n) = wordAt (b'.location.word origin) ∧
      m.Keeps m' n (n + 3) ∧ m'.rest = rest := by
  have hlength : (length : Int) ≤ Word.max := by
    have hfits := hb.fits
    rw [hshape] at hfits
    exact hfits.2.1
  have hn₀ : n < bankSize := by omega
  have hn₁ : n + 1 < bankSize := by omega
  have hn₂ : n + 2 < bankSize := by omega
  obtain ⟨m₁, hm₁⟩ : ∃ m₁, (m.set (bank (n + 2)) (BitVec.ofInt 32 length)).goTo
      ((indexCode n length (Word.size * element.cells)).tail ++ rest) = m₁ := ⟨_, rfl⟩
  have hload : host.step m = m₁ := by
    rw [← hm₁]
    exact Host.step_loadInteger hrest (bank_ne hn₂).2.2.1 hrun
  have hkeeps₁ : m.Keeps m₁ n (n + 3) := hm₁ ▸ Machine.Keeps.set hrun (by omega) (by omega)
  have hindex₁ : m₁.get (bank (n + 1)) = i := by
    rw [← hm₁, Machine.get_goTo, Machine.get_bank_set_bank hn₁ hn₂, if_neg (by omega), hindex]
  have hbase₁ : m₁.get (bank n) = wordAt (b.location.word origin) := by
    rw [← hm₁, Machine.get_goTo, Machine.get_bank_set_bank hn₀ hn₂, if_neg (by omega), hbase]
  have hlength₁ : m₁.get (bank (n + 2)) = BitVec.ofNat 32 length := by
    rw [← hm₁, Machine.get_goTo, Machine.get_set_self (bank_ne hn₂).1, BitVec.ofInt_natCast]
  have hrest₁ : m₁.rest = .branch .geUnsigned (bank (n + 1)) (bank (n + 2)) indexErrorLabel ::
      ((indexCode n length (Word.size * element.cells)).drop 2 ++ rest) := by
    rw [← hm₁]
    rfl
  have hcheck : BranchOp.geUnsigned.holds (m₁.get (bank (n + 1))) (m₁.get (bank (n + 2))) =
      decide (length ≤ i.toNat) := by
    rw [hindex₁, hlength₁, BranchOp.holds_geUnsigned hlength]
  refine .step hrun hload hkeeps₁.events ?_
  unfold Binding.element
  rw [hshape]
  dsimp only
  by_cases hrange : i.toNat < length
  · rw [if_pos ((index_in_range hlength).mpr hrange)]
    have hpass : host.step m₁ =
        m₁.goTo ((indexCode n length (Word.size * element.cells)).drop 2 ++ rest) :=
      Host.step_branch_of_not_holds hrest₁
        (by rw [hcheck, decide_eq_false_iff_not]; omega) hkeeps₁.status
    have hkeeps₂ : m₁.Keeps (m₁.goTo
        ((indexCode n length (Word.size * element.cells)).drop 2 ++ rest)) n (n + 3) :=
      .refl hkeeps₁.status
    obtain ⟨m', hreaches, hkeeps, hrest', haddress⟩ :=
      scaleCode_reaches host hkeeps₂.status hn hbase₁ hindex₁ rfl
    refine .ok ((Host.Advances.one hpass hkeeps₁.status).reaches.trans hkeeps₂.events hreaches)
      (hkeeps.events.trans hkeeps₂.events) ⟨rfl, hb.element hshape hrange, ?_, ?_, hrest'⟩
    · rw [haddress, Location.word_shift]
    · exact (hkeeps₁.append hkeeps₂).append hkeeps
  · rw [if_neg fun h => hrange ((index_in_range hlength).mp h)]
    have htaken : host.step m₁ = m₁.halt .indexError := by
      rw [Host.step_branch_of_holds hrest₁
        (by rw [hcheck, decide_eq_true_iff]; omega) hkeeps₁.status, Host.jump_indexError hlinked]
    exact .error (by decide) (Host.Advances.one htaken hkeeps₁.status).reaches rfl rfl

/-! ### Operators -/

/-- The instruction of an operator computes its value. -/
lemma BinaryOp.apply_of_arith? {op : BinaryOp} {arith : ArithOp} (h : op.arith? = some arith)
    {a b : Bits} : (∀ w, arith.apply a b = some w → op.apply a b = .ok w) ∧
      (arith.apply a b = none → op.apply a b = .error .divisionByZero) := by
  cases op <;> cases h <;> unfold ArithOp.apply BinaryOp.apply <;> simp

/-- The value of a comparison is a truth value. -/
lemma BinaryOp.apply_of_isComparison {op : BinaryOp} (h : op.isComparison = true) {a b : Bits} :
    op.apply a b = .ok (truth (op.holds a b)) := by
  cases op <;> first | rfl | cases h

/-- The branch of a comparison is taken if the comparison does not hold. -/
lemma BinaryOp.holds_inverseBranch {op : BinaryOp} (h : op.isComparison = true) {a b : Bits} :
    op.inverseBranch.holds a b = !op.holds a b := by
  cases op with
  | add | sub | mul | div => cases h
  | eq => rfl
  | ne => exact (Bool.not_not _).symm
  | lt => exact BitVec.sle_eq_not_slt
  | ge =>
    have hle : b.sle a = !a.slt b := BitVec.sle_eq_not_slt
    rw [holds, hle, Bool.not_not]
    rfl
  | le =>
    have hle : a.sle b = !b.slt a := BitVec.sle_eq_not_slt
    rw [holds, hle, Bool.not_not]
    rfl
  | gt => exact BitVec.sle_eq_not_slt

/-- The code that turns a comparison into 1 or 0. -/
lemma compareCode_reaches (hlinked : Linked code) (hrun : m.status = .running) {op : BinaryOp}
    (hop : op.isComparison = true) {n l : Nat} (hn : n + 2 ≤ bankSize)
    (hrest : m.rest = compareCode op n l ++ rest) (hsuffix : m.rest <:+ code) :
    host.Reaches m ((m.set (bank n)
      (truth (op.holds (m.get (bank n)) (m.get (bank (n + 1)))))).goTo rest) := by
  have hn₀ : n < bankSize := by omega
  rw [hrest] at hsuffix
  have hfalse : .label (labelName l) :: loadInteger (bank n) 0 :: .label (labelName (l + 1)) ::
      rest <:+ code :=
    (List.suffix_append ((compareCode op n l).take 3) _).trans hsuffix
  have hends : .label (labelName (l + 1)) :: rest <:+ code :=
    (List.suffix_append ((compareCode op n l).take 5) _).trans hsuffix
  have hbranch := BinaryOp.holds_inverseBranch hop (a := m.get (bank n)) (b := m.get (bank (n + 1)))
  cases hholds : op.holds (m.get (bank n)) (m.get (bank (n + 1))) with
  | true =>
    rw [hholds] at hbranch
    have hpass : host.step m = m.goTo (((compareCode op n l).drop 1) ++ rest) :=
      Host.step_branch_of_not_holds hrest hbranch hrun
    have hload : host.step (m.goTo (((compareCode op n l).drop 1) ++ rest)) =
        (m.set (bank n) (truth true)).goTo (((compareCode op n l).drop 2) ++ rest) :=
      Host.step_loadInteger (i := 1) rfl (bank_ne hn₀).2.2.1 hrun
    have hjump : host.Advances
        ((m.set (bank n) (truth true)).goTo (((compareCode op n l).drop 2) ++ rest))
        ((m.set (bank n) (truth true)).goTo rest) :=
      Host.advances_jump hlinked rfl hends hrun
    exact ((Host.Advances.one hpass hrun).trans rfl
      (Host.Advances.one hload hrun).reaches).reaches.trans rfl hjump.reaches
  | false =>
    rw [hholds] at hbranch
    have htaken : host.Advances m
        (m.goTo (loadInteger (bank n) 0 :: .label (labelName (l + 1)) :: rest)) :=
      Host.advances_branch hlinked hrest hfalse hbranch hrun
    have hload : host.step (m.goTo (loadInteger (bank n) 0 :: .label (labelName (l + 1)) :: rest)) =
        (m.set (bank n) (truth false)).goTo (.label (labelName (l + 1)) :: rest) :=
      Host.step_loadInteger (i := 0) rfl (bank_ne hn₀).2.2.1 hrun
    have hlabel : host.step
        ((m.set (bank n) (truth false)).goTo (.label (labelName (l + 1)) :: rest)) =
        (m.set (bank n) (truth false)).goTo rest :=
      Host.step_label rfl hrun
    exact (htaken.reaches.trans rfl (Host.Advances.one hload hrun).reaches).trans rfl
      (Host.Advances.one hlabel hrun).reaches

/-- The code of an operator computes its value. -/
lemma BinaryOp.code_evaluates (hlinked : Linked code) (hrun : m.status = .running) {op : BinaryOp}
    {n l : Nat} (hn : n + 2 ≤ bankSize) (hrest : m.rest = op.code n l ++ rest)
    (hsuffix : m.rest <:+ code) :
    host.Evaluates m (op.apply (m.get (bank n)) (m.get (bank (n + 1)))) fun w m' =>
      m'.get (bank n) = w ∧ m.Keeps m' n (n + 2) ∧ m'.rest = rest := by
  have hn₀ : n < bankSize := by omega
  have hset : ∀ w, ((m.set (bank n) w).goTo rest).get (bank n) = w := fun w => by
    rw [Machine.get_goTo, Machine.get_set_self (bank_ne hn₀).1]
  have hkeeps : ∀ w, m.Keeps ((m.set (bank n) w).goTo rest) n (n + 2) := fun w =>
    .set hrun (Nat.le_refl n) (by omega)
  cases hop : op.arith? with
  | some arith =>
    rw [BinaryOp.code, hop] at hrest
    obtain ⟨hvalue, hfault⟩ := BinaryOp.apply_of_arith? hop
      (a := m.get (bank n)) (b := m.get (bank (n + 1)))
    cases hw : arith.apply (m.get (bank n)) (m.get (bank (n + 1))) with
    | some w =>
      have hstep : host.step m = (m.set (bank n) w).goTo rest :=
        Host.step_arith hrest (bank_ne hn₀).2.2.1 hw hrun
      rw [hvalue w hw]
      exact .ok (Host.Advances.one hstep hrun).reaches rfl ⟨hset w, hkeeps w, rfl⟩
    | none =>
      have hstep : host.step m = m.halt .divisionByZero :=
        Host.step_arith_none hrest (bank_ne hn₀).2.2.1 hw hrun
      rw [hfault hw]
      exact .error (by decide) (Host.Advances.one hstep hrun).reaches rfl rfl
  | none =>
    rw [BinaryOp.code, hop] at hrest
    have hcomparison := BinaryOp.arith?_eq_none hop
    rw [BinaryOp.apply_of_isComparison hcomparison]
    exact .ok (compareCode_reaches host hlinked hrun hcomparison hn hrest hsuffix) rfl
      ⟨hset _, hkeeps _, rfl⟩

/-! ### Variables and expressions -/

/-- The code for a place leaves the address of what its variable stands for. -/
lemma Place.code_reaches (hrun : m.status = .running) {p : Place} {b : Binding} {fp : Nat}
    {origin : Nat → Nat} (hp : p.Shows fp origin m.memory b) (hfp : m.get .fp = wordAt fp) {n : Nat}
    (hn : n < bankSize) (hrest : m.rest = p.code n ++ rest) :
    ∃ m', host.Reaches m m' ∧ m.Keeps m' n (n + 1) ∧ m'.rest = rest ∧
      m'.get (bank n) = wordAt (b.location.word origin) := by
  obtain ⟨a, hword, href, hvalue⟩ := hp.word
  have hkeeps : ∀ w rest, m.Keeps ((m.set (bank n) w).goTo rest) n (n + 1) := fun _ _ =>
    .set hrun (Nat.le_refl n) (Nat.lt_succ_self n)
  have hset : ∀ w rest, ((m.set (bank n) w).goTo rest).get (bank n) = w := fun _ _ =>
    Machine.get_set_self (bank_ne hn).1
  have hcompute : ArithOp.add.apply (m.get .fp) (m.operand (.integer p.offset)) =
      some (wordAt a) := by
    rw [hfp, Machine.operand, ArithOp.apply, wordAt_add_ofInt hword]
  cases hreference : p.isReference with
  | false =>
    rw [Place.code, hreference] at hrest
    have hstep : host.step m = (m.set (bank n) (wordAt a)).goTo rest :=
      Host.step_arith hrest (bank_ne hn).2.2.1 hcompute hrun
    refine ⟨_, (Host.Advances.one hstep hrun).reaches, hkeeps _ _, rfl, ?_⟩
    rw [hset, hvalue hreference]
  | true =>
    obtain ⟨hfits, hmemory⟩ := href hreference
    rw [Place.code, hreference] at hrest
    have hstep : host.step m = (m.set (bank n) (wordAt a)).goTo
        (.load (bank n) (bank n) 0 :: rest) :=
      Host.step_arith hrest (bank_ne hn).2.2.1 hcompute hrun
    generalize hm₁ : (m.set (bank n) (wordAt a)).goTo (.load (bank n) (bank n) 0 :: rest) = m₁
      at hstep
    have hkeeps₁ : m.Keeps m₁ n (n + 1) := hm₁ ▸ hkeeps _ _
    have hload : host.step m₁ = (m₁.set (bank n) (m₁.memory a)).goTo rest :=
      Host.step_load (by rw [← hm₁]; rfl) (Machine.address?_zero (by rw [← hm₁, hset]) hfits)
        hkeeps₁.status
    refine ⟨_, (Host.Advances.one hstep hrun).reaches.trans hkeeps₁.events
      (Host.Advances.one hload hkeeps₁.status).reaches, ?_, rfl, ?_⟩
    · exact hkeeps₁.append (.set hkeeps₁.status (Nat.le_refl n) (Nat.lt_succ_self n))
    · rw [Machine.get_goTo, Machine.get_set_self (bank_ne hn).1, hkeeps₁.memory, hmemory]

/-- The load behind the code of a variable leaves the first cell of what the variable stands for, if
that has any cells. -/
lemma load_reaches (hrun : m.status = .running) {store : Store} {origin : Nat → Nat} {b : Binding}
    (hb : b.Stored store origin m.memory) {n : Nat} (hn : n < bankSize)
    (haddress : m.get (bank n) = wordAt (b.location.word origin))
    (hrest : m.rest = .load (bank n) (bank n) 0 :: rest) :
    ∃ m', host.Reaches m m' ∧ m.Keeps m' n (n + 1) ∧ m'.rest = rest ∧
      (0 < b.shape.cells → m'.get (bank n) = store b.location) := by
  obtain ⟨a, ha, hsame⟩ := Machine.exists_address?_zero haddress
  have hload : host.step m = (m.set (bank n) (m.memory a)).goTo rest :=
    Host.step_load hrest ha hrun
  refine ⟨_, (Host.Advances.one hload hrun).reaches,
    .set hrun (Nat.le_refl n) (Nat.lt_succ_self n), rfl, fun hcells => ?_⟩
  have hword : m.memory (b.location.word origin) = store b.location := hb.cells 0 hcells
  rw [Machine.get_goTo, Machine.get_set_self (bank_ne hn).1, hsame (hb.word_lt hcells), hword]

end

section
variable {code : Code} (host : Host code) {v : View}

mutual

/-- The code of a variable finds out what the variable stands for, and leaves its address. -/
lemma Variable.code_evaluates (hlinked : Linked code) {x : Variable} {s : ValueShape}
    (hx : x.shape? v.places = some s) {m : Machine} (hshows : v.Shows m)
    (hrun : m.status = .running) {n l : Nat} (hn : n + x.need ≤ bankSize) {rest : Code}
    (hrest : m.rest = x.code v.places n l ++ rest) (hsuffix : m.rest <:+ code) :
    host.Evaluates m (x.locate v.environment v.store) fun b m' => b.shape = s ∧
      b.Stored v.store v.origin m.memory ∧ m'.get (bank n) = wordAt (b.location.word v.origin) ∧
      m.Keeps m' n (n + x.need) ∧ m'.rest = rest := by
  match x with
  | .named _ name =>
    rw [Variable.shape?, Option.map_eq_some_iff] at hx
    obtain ⟨p, hp, rfl⟩ := hx
    obtain ⟨b, hb, hplace, hstored⟩ := hshows.memory name p hp
    rw [Variable.code, hp] at hrest
    rw [Variable.locate, hb]
    obtain ⟨m', hreaches, hkeeps, hrest', haddress⟩ :=
      Place.code_reaches host hrun hplace hshows.fp hn hrest
    exact .ok hreaches hkeeps.events ⟨hplace.shape, hstored, haddress, hkeeps, hrest'⟩
  | .element _ array index =>
    rw [Variable.need] at hn ⊢
    rw [Variable.shape?] at hx
    split at hx
    · rename_i length s' harray hindex
      cases hx
      rw [Variable.code, harray, List.append_assoc, List.append_assoc] at hrest
      have hneed := array.need_pos
      have hneed' := index.need_pos
      rw [Variable.locate]
      refine (Variable.code_evaluates hlinked harray hshows hrun (by omega) hrest hsuffix).bind
        fun b m₁ h₁ => ?_
      obtain ⟨hshape₁, hstored₁, haddress₁, hkeeps₁, hrest₁⟩ := h₁
      have hsuffix₁ : m₁.rest <:+ code := hrest₁ ▸ suffix_of_append hsuffix hrest
      have hshows₁ := hshows.keeps hkeeps₁ (by omega)
      refine (Expr.code_evaluates_of_cells hlinked hindex hshows₁ hkeeps₁.status (by omega) hrest₁
        hsuffix₁).bind fun i m₂ h₂ => ?_
      obtain ⟨hindex₂, hkeeps₂, hrest₂⟩ := h₂
      have hmemory : m₂.memory = m.memory := hkeeps₂.memory.trans hkeeps₁.memory
      have haddress₂ : m₂.get (bank n) = wordAt (b.location.word v.origin) := by
        rw [hkeeps₂.bank (by omega) (Nat.lt_succ_self n) (by omega), haddress₁]
      rw [← hmemory] at hstored₁
      refine (indexCode_evaluates host hlinked hkeeps₂.status hstored₁ hshape₁ (by omega) haddress₂
        (hindex₂ Nat.one_pos) hrest₂).mono fun b' m₃ _ h₃ => ?_
      obtain ⟨hshape₃, hstored₃, haddress₃, hkeeps₃, hrest₃⟩ := h₃
      rw [hmemory] at hstored₃
      refine ⟨hshape₃, hstored₃, haddress₃, ?_, hrest₃⟩
      exact (hkeeps₁.trans hkeeps₂ (Nat.le_refl n) (by omega) (by omega) (by omega)).trans hkeeps₃
        (Nat.le_refl n) (Nat.le_refl n) (Nat.le_refl _) (by omega)
    · cases hx

/-- The code of an expression leaves the value of the expression.  An expression may also stand for an
array; then this is the first cell, or any word if the array has no cells. -/
lemma Expr.code_evaluates_of_cells (hlinked : Linked code) {e : Expr} {s : ValueShape}
    (he : e.shape? v.places = some s) {m : Machine} (hshows : v.Shows m)
    (hrun : m.status = .running) {n l : Nat} (hn : n + e.need ≤ bankSize) {rest : Code}
    (hrest : m.rest = e.code v.places n l ++ rest) (hsuffix : m.rest <:+ code) :
    host.Evaluates m (e.evaluate v.environment v.store) fun w m' =>
      (0 < s.cells → m'.get (bank n) = w) ∧ m.Keeps m' n (n + e.need) ∧ m'.rest = rest := by
  match e with
  | .int _ value =>
    have hstep : host.step m = (m.set (bank n) (BitVec.ofInt 32 value.toInt)).goTo rest :=
      Host.step_loadInteger hrest (bank_ne hn).2.2.1 hrun
    refine .ok (Host.Advances.one hstep hrun).reaches rfl ⟨fun _ => ?_, ?_, rfl⟩
    · rw [Machine.get_goTo, Machine.get_set_self (bank_ne hn).1, ← Int32.toInt_toBitVec,
        BitVec.ofInt_toInt]
    · exact .set hrun (Nat.le_refl n) (Nat.lt_succ_self n)
  | .bool _ value =>
    have hstep : host.step m =
        (m.set (bank n) (BitVec.ofInt 32 (if value then 1 else 0))).goTo rest :=
      Host.step_loadInteger hrest (bank_ne hn).2.2.1 hrun
    refine .ok (Host.Advances.one hstep hrun).reaches rfl ⟨fun _ => ?_, ?_, rfl⟩
    · rw [Machine.get_goTo, Machine.get_set_self (bank_ne hn).1]
      cases value <;> rfl
    · exact .set hrun (Nat.le_refl n) (Nat.lt_succ_self n)
  | .read _ source =>
    rw [Expr.need] at hn ⊢
    rw [Expr.code, List.append_assoc] at hrest
    have hneed := source.need_pos
    rw [Expr.evaluate]
    refine (Variable.code_evaluates hlinked he hshows hrun hn hrest hsuffix).bind fun b m₁ h₁ => ?_
    obtain ⟨hshape₁, hstored₁, haddress₁, hkeeps₁, hrest₁⟩ := h₁
    rw [← hkeeps₁.memory] at hstored₁
    obtain ⟨m₂, hreaches₂, hkeeps₂, hrest₂, hvalue₂⟩ :=
      load_reaches host hkeeps₁.status hstored₁ (by omega) haddress₁ hrest₁
    refine .ok hreaches₂ hkeeps₂.events ⟨fun hcells => hvalue₂ (hshape₁ ▸ hcells), ?_, hrest₂⟩
    exact hkeeps₁.trans hkeeps₂ (Nat.le_refl n) (Nat.le_refl n) (Nat.le_refl _) (by omega)
  | .negate _ operand =>
    rw [Expr.need] at hn ⊢
    rw [Expr.code, List.append_assoc] at hrest
    have hneed := operand.need_pos
    have hn₀ : n < bankSize := by omega
    rw [Expr.shape?] at he
    split at he
    · rename_i hoperand
      rw [Expr.evaluate]
      refine (Expr.code_evaluates_of_cells hlinked hoperand hshows hrun hn hrest hsuffix).bind
        fun w m₁ h₁ => ?_
      obtain ⟨hvalue₁, hkeeps₁, hrest₁⟩ := h₁
      have hsub : host.step m₁ = (m₁.set (bank n) (-w)).goTo rest := by
        refine Host.step_arith hrest₁ (bank_ne hn₀).2.2.1 ?_ hkeeps₁.status
        rw [Machine.get_zero, Machine.operand, hvalue₁ Nat.one_pos, ArithOp.apply]
        exact congrArg some (BitVec.zero_sub w)
      refine .ok (Host.Advances.one hsub hkeeps₁.status).reaches rfl ⟨fun _ => ?_, ?_, rfl⟩
      · rw [Machine.get_goTo, Machine.get_set_self (bank_ne hn₀).1]
      · exact hkeeps₁.append (.set hkeeps₁.status (Nat.le_refl n) (by omega))
    · cases he
  | .binary _ op left right =>
    rw [Expr.need] at hn ⊢
    rw [Expr.code, List.append_assoc, List.append_assoc] at hrest
    have hneed := left.need_pos
    have hneed' := right.need_pos
    rw [Expr.shape?] at he
    split at he
    · rename_i hleft hright
      rw [Expr.evaluate]
      refine (Expr.code_evaluates_of_cells hlinked hleft hshows hrun (by omega) hrest hsuffix).bind
        fun a m₁ h₁ => ?_
      obtain ⟨hvalue₁, hkeeps₁, hrest₁⟩ := h₁
      have hsuffix₁ : m₁.rest <:+ code := hrest₁ ▸ suffix_of_append hsuffix hrest
      have hshows₁ := hshows.keeps hkeeps₁ (by omega)
      refine (Expr.code_evaluates_of_cells hlinked hright hshows₁ hkeeps₁.status (by omega) hrest₁
        hsuffix₁).bind fun b m₂ h₂ => ?_
      obtain ⟨hvalue₂, hkeeps₂, hrest₂⟩ := h₂
      have hsuffix₂ : m₂.rest <:+ code := hrest₂ ▸ suffix_of_append hsuffix₁ hrest₁
      have hleft₂ : m₂.get (bank n) = a := by
        rw [hkeeps₂.bank (by omega) (Nat.lt_succ_self n) (by omega), hvalue₁ Nat.one_pos]
      have hop := BinaryOp.code_evaluates host hlinked hkeeps₂.status (n := n)
        (by omega) hrest₂ hsuffix₂
      rw [hleft₂, hvalue₂ Nat.one_pos] at hop
      refine hop.mono fun w m₃ _ h₃ => ?_
      obtain ⟨hvalue₃, hkeeps₃, hrest₃⟩ := h₃
      refine ⟨fun _ => hvalue₃, ?_, hrest₃⟩
      exact (hkeeps₁.trans hkeeps₂ (Nat.le_refl n) (by omega) (by omega) (by omega)).trans hkeeps₃
        (Nat.le_refl n) (Nat.le_refl n) (Nat.le_refl _) (by omega)
    · cases he

end

/-- The code of an expression that is not an array leaves the value of the expression. -/
lemma Expr.code_evaluates (hlinked : Linked code) {e : Expr} {s : ValueShape}
    (he : e.shape? v.places = some s) (hs : s.isScalar = true) {m : Machine} (hshows : v.Shows m)
    (hrun : m.status = .running) {n l : Nat} (hn : n + e.need ≤ bankSize) {rest : Code}
    (hrest : m.rest = e.code v.places n l ++ rest) (hsuffix : m.rest <:+ code) :
    host.Evaluates m (e.evaluate v.environment v.store) fun w m' =>
      m'.get (bank n) = w ∧ m.Keeps m' n (n + e.need) ∧ m'.rest = rest := by
  refine (Expr.code_evaluates_of_cells host hlinked he hshows hrun hn hrest hsuffix).mono
    fun w m' _ h => ?_
  exact ⟨h.1 (ValueShape.cells_pos_of_isScalar hs), h.2⟩

/-! ### Conditions -/

/-- A branch to the label of a false condition that is taken if the value is 0. -/
private lemma branch_evaluates (hlinked : Linked code) {falseLabel : String} {rest after : Code}
    (hfalse : .label falseLabel :: after <:+ code) {m m' : Machine} {high : Nat}
    (hkeeps : m.Keeps m' 0 high) {op : BranchOp} {left right : Register} {w : Bits}
    (hholds : op.holds (m'.get left) (m'.get right) = decide (w = 0))
    (hrest : m'.rest = .branch op left right falseLabel :: rest) :
    ∃ m'', host.Reaches m' m'' ∧ m.Keeps m'' 0 high ∧
      m''.rest = if w = 0 then after else rest := by
  by_cases hw : w = 0
  · rw [if_pos hw]
    rw [decide_eq_true hw] at hholds
    exact ⟨_, (Host.advances_branch hlinked hrest hfalse hholds hkeeps.status).reaches,
      hkeeps.append (.refl hkeeps.status), rfl⟩
  · rw [if_neg hw]
    rw [decide_eq_false hw] at hholds
    have hpass : host.step m' = m'.goTo rest :=
      Host.step_branch_of_not_holds hrest hholds hkeeps.status
    exact ⟨_, (Host.Advances.one hpass hkeeps.status).reaches,
      hkeeps.append (.refl hkeeps.status), rfl⟩

/-- The next instruction of a machine is a branch that is taken if a value is 0. -/
def Machine.BranchesOn (m : Machine) (w : Bits) (falseLabel : String) (rest : Code) : Prop :=
  ∃ op left right, m.rest = .branch op left right falseLabel :: rest ∧
    op.holds (m.get left) (m.get right) = decide (w = 0)

/-- The code that compares the value of an expression with zero. -/
private lemma Expr.zeroTest_evaluates (hlinked : Linked code) {e : Expr} {s : ValueShape}
    (he : e.shape? v.places = some s) (hs : s.isScalar = true) {m : Machine} (hshows : v.Shows m)
    (hrun : m.status = .running) {n l : Nat} (hn : n + e.need ≤ bankSize) {falseLabel : String}
    {rest : Code}
    (hrest : m.rest = e.code v.places n l ++ .branch .eq (bank n) .zero falseLabel :: rest)
    (hsuffix : m.rest <:+ code) :
    host.Evaluates m (e.evaluate v.environment v.store) fun w m' =>
      m.Keeps m' n (n + e.need) ∧ m'.BranchesOn w falseLabel rest := by
  refine (Expr.code_evaluates host hlinked he hs hshows hrun hn hrest hsuffix).mono
    fun w m' _ h => ?_
  obtain ⟨hvalue, hkeeps, hrest'⟩ := h
  refine ⟨hkeeps, .eq, bank n, .zero, hrest', ?_⟩
  rw [hvalue, Machine.get_zero]
  rfl

/-- The code of a condition evaluates it up to the branch, which is taken if the value is 0. -/
lemma Expr.testCode_evaluates (hlinked : Linked code) {test : Expr} {s : ValueShape}
    (htest : test.shape? v.places = some s) (hs : s.isScalar = true) {m : Machine}
    (hshows : v.Shows m) (hrun : m.status = .running) {n l : Nat} (hn : n + test.need ≤ bankSize)
    {falseLabel : String} {rest : Code}
    (hrest : m.rest = test.testCode v.places n l ++ test.testBranch falseLabel n :: rest)
    (hsuffix : m.rest <:+ code) :
    host.Evaluates m (test.evaluate v.environment v.store) fun w m' =>
      m.Keeps m' n (n + test.need) ∧ m'.BranchesOn w falseLabel rest := by
  match test with
  | .int _ _ =>
    exact Expr.zeroTest_evaluates host hlinked htest hs hshows hrun (l := l) hn hrest hsuffix
  | .bool _ _ =>
    exact Expr.zeroTest_evaluates host hlinked htest hs hshows hrun (l := l) hn hrest hsuffix
  | .read _ _ => exact Expr.zeroTest_evaluates host hlinked htest hs hshows hrun hn hrest hsuffix
  | .negate _ _ => exact Expr.zeroTest_evaluates host hlinked htest hs hshows hrun hn hrest hsuffix
  | .binary mark op left right =>
    rw [Expr.testCode, Expr.testBranch] at hrest
    by_cases hop : op.isComparison = true
    · rw [if_pos hop, if_pos hop, List.append_assoc] at hrest
      rw [Expr.need] at hn ⊢
      have hpos := left.need_pos
      have hpos' := right.need_pos
      rw [Expr.shape?] at htest
      split at htest
      · rename_i hleft hright
        rw [Expr.evaluate]
        refine (Expr.code_evaluates host hlinked hleft rfl hshows hrun (by omega) hrest hsuffix).bind
          fun a m₁ h₁ => ?_
        obtain ⟨hvalue₁, hkeeps₁, hrest₁⟩ := h₁
        have hsuffix₁ : m₁.rest <:+ code := hrest₁ ▸ suffix_of_append hsuffix hrest
        have hshows₁ := hshows.keeps hkeeps₁ (by omega)
        refine (Expr.code_evaluates host hlinked hright rfl hshows₁ hkeeps₁.status (by omega) hrest₁
          hsuffix₁).bind fun b m₂ h₂ => ?_
        obtain ⟨hvalue₂, hkeeps₂, hrest₂⟩ := h₂
        have hleft₂ : m₂.get (bank n) = a := by
          rw [hkeeps₂.bank (by omega) (Nat.lt_succ_self n) (by omega), hvalue₁]
        have hkeeps : m.Keeps m₂ n (n + max left.need (1 + right.need)) :=
          hkeeps₁.trans hkeeps₂ (Nat.le_refl n) (Nat.le_succ n) (by omega) (by omega)
        rw [BinaryOp.apply_of_isComparison hop]
        refine .ok .refl rfl ⟨hkeeps, op.inverseBranch, bank n, bank (n + 1), hrest₂, ?_⟩
        rw [hleft₂, hvalue₂, BinaryOp.holds_inverseBranch hop]
        cases op.holds a b <;> rfl
      · cases htest
    · rw [if_neg hop, if_neg hop] at hrest
      exact Expr.zeroTest_evaluates host hlinked htest hs hshows hrun hn hrest hsuffix

/-- The code of a condition goes on behind the label that is given if the value is 0. -/
lemma Expr.conditionCode_evaluates (hlinked : Linked code) {test : Expr} {s : ValueShape}
    (htest : test.shape? v.places = some s) (hs : s.isScalar = true) {m : Machine}
    (hshows : v.Shows m) (hrun : m.status = .running) {l : Nat} (hneed : test.need ≤ bankSize)
    {falseLabel : String} {rest after : Code} (hfalse : .label falseLabel :: after <:+ code)
    (hrest : m.rest = test.conditionCode v.places falseLabel l ++ rest)
    (hsuffix : m.rest <:+ code) :
    host.Evaluates m (test.evaluate v.environment v.store) fun w m' =>
      m.Keeps m' 0 test.need ∧ m'.rest = if w = 0 then after else rest := by
  rw [Expr.conditionCode_eq, List.append_assoc] at hrest
  have hcode := Expr.testCode_evaluates host hlinked htest hs hshows hrun
    (by rwa [Nat.zero_add]) hrest hsuffix
  rw [Nat.zero_add] at hcode
  refine hcode.andThen fun w m₁ h₁ => ?_
  obtain ⟨hkeeps₁, op, left, right, hrest₁, hholds⟩ := h₁
  obtain ⟨m', hreaches, hkeeps, hrest'⟩ := branch_evaluates host hlinked hfalse hkeeps₁ hholds hrest₁
  exact ⟨m', hreaches, hkeeps.events.trans hkeeps₁.events.symm, hkeeps, hrest'⟩

end

end TreeCompiler
