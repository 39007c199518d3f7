import TreeCompiler.Proofs.Emission.Symbols
import TreeCompiler.Proofs.Meaning.Machine

/-!
# Executing pieces of code

How a machine gets from one state to another without anything being seen (`Host.Reaches`), what a
single instruction does, and where labels lead.  `Machine.Keeps` says that a piece of code changes
nothing but registers of the bank, and `Host.Evaluates` that it carries out an evaluation: the
machine reaches a state for the value, or the end of the run that belongs to the fault.
-/

namespace TreeCompiler

/-! ### Addresses of words -/

/-- The address of a word of the memory. -/
def wordAt (a : Nat) : Bits := BitVec.ofNat 32 (Word.size * a)

/-- The addresses that there are. -/
def addresses : Nat := 2 ^ 32

/-- The address of a word that there is. -/
lemma toNat_wordAt {a : Nat} (h : Word.size * a < addresses) : (wordAt a).toNat = Word.size * a := by
  unfold wordAt
  rw [BitVec.toNat_ofNat]
  exact Nat.mod_eq_of_lt h

/-- The address of a word that lies at an offset from another. -/
lemma wordAt_add_ofInt {a b : Nat} {i : Int} (h : (Word.size * b : Int) = Word.size * a + i) :
    wordAt a + BitVec.ofInt 32 i = wordAt b := by
  unfold wordAt
  rw [← BitVec.ofInt_natCast, ← BitVec.ofInt_natCast, ← BitVec.ofInt_add]
  push_cast
  rw [h]

/-- The address of a word that lies an index times a size further on. -/
lemma wordAt_add_mul {a cells : Nat} {i : Bits} :
    wordAt a + i * BitVec.ofInt 32 ((Word.size * cells : Nat) : Int) =
      wordAt (a + i.toNat * cells) := by
  have hindex : i = BitVec.ofNat 32 i.toNat := by
    rw [BitVec.ofNat_toNat, BitVec.setWidth_eq]
  unfold wordAt
  conv_lhs => rw [hindex]
  rw [BitVec.ofInt_natCast, BitVec.ofNat_mul_ofNat, ← BitVec.ofNat_add]
  congr 1
  ring

/-! ### Registers -/

namespace Machine

variable {m m' m'' : Machine} {r r' : Register} {w : Bits} {rest : Code}

/-- A register that is set reads what it is set to. -/
lemma get_set_self (h : r ≠ .zero) : (m.set r w).get r = w := by
  unfold get set
  rw [if_neg h]
  exact if_pos rfl

/-- The other registers read what they did. -/
lemma get_set_of_ne (h : r' ≠ r) : (m.set r w).get r' = m.get r' := by
  unfold get set
  dsimp only
  rw [if_neg h]

/-- What a register of the bank reads after another one is set. -/
lemma get_bank_set_bank {j k : Nat} (hj : j < bankSize) (hk : k < bankSize) :
    (m.set (bank k) w).get (bank j) = if j = k then w else m.get (bank j) := by
  by_cases heq : j = k
  · rw [heq, if_pos rfl]
    exact get_set_self (bank_ne hk).1
  · rw [if_neg heq]
    exact get_set_of_ne fun h => heq (bank_injective hj hk h)

/-- Where the code goes on does not change what registers read. -/
@[simp] lemma get_goTo : (m.goTo rest).get r = m.get r := rfl

/-- The register of zeros reads 0. -/
lemma get_zero : m.get .zero = 0 := rfl

/-- The word that an address belongs to. -/
lemma address?_eq_some {base : Register} {a b : Nat} {offset : Int} (hbase : m.get base = wordAt a)
    (hword : (Word.size * b : Int) = Word.size * a + offset) (hfits : Word.size * b < addresses) :
    m.address? base offset = some b := by
  have hsize : Word.size = 4 := rfl
  unfold address?
  dsimp only
  rw [hbase, wordAt_add_ofInt hword, toNat_wordAt hfits, hsize, if_pos (Nat.mul_mod_right 4 b),
    Nat.mul_div_cancel_left b (by decide)]

/-- The address of a word itself. -/
lemma address?_zero {base : Register} {a : Nat} (hbase : m.get base = wordAt a)
    (hfits : Word.size * a < addresses) : m.address? base 0 = some a :=
  address?_eq_some hbase (Int.add_zero _).symm hfits

/-- An address that has wrapped around is still that of a word. -/
lemma exists_address?_zero {base : Register} {a : Nat} (hbase : m.get base = wordAt a) :
    ∃ b, m.address? base 0 = some b ∧ (Word.size * a < addresses → b = a) := by
  have haligned : (m.get base + BitVec.ofInt 32 0).toNat % 4 = 0 := by
    have hsize : Word.size = 4 := rfl
    have hzero : BitVec.ofInt 32 0 = 0#32 := rfl
    rw [hbase, hzero, BitVec.add_zero, wordAt, BitVec.toNat_ofNat, hsize]
    omega
  have haddress : m.address? base 0 = some ((m.get base + BitVec.ofInt 32 0).toNat / 4) :=
    if_pos haligned
  refine ⟨_, haddress, fun hfits => ?_⟩
  rw [address?_zero hbase hfits] at haddress
  exact (Option.some.inj haddress).symm

/-- Between two states nothing has changed but registers of the bank, from one up to another. -/
structure Keeps (m m' : Machine) (low high : Nat) : Prop where
  memory : m'.memory = m.memory
  events : m'.events = m.events
  status : m'.status = .running
  registers : ∀ r, (∀ k, low ≤ k → k < high → r ≠ bank k) → m'.get r = m.get r

/-- Nothing changes in a run that goes on at another place. -/
lemma Keeps.refl (h : m.status = .running) {low high : Nat} : m.Keeps (m.goTo rest) low high :=
  ⟨rfl, rfl, h, fun _ _ => rfl⟩

/-- Setting a register of the bank changes nothing else. -/
lemma Keeps.set (h : m.status = .running) {low k high : Nat} (hlow : low ≤ k) (hhigh : k < high) :
    m.Keeps ((m.set (bank k) w).goTo rest) low high :=
  ⟨rfl, rfl, h, fun _ hr => get_set_of_ne (hr k hlow hhigh)⟩

/-- What is changed in two parts. -/
lemma Keeps.trans {low low' low'' high high' high'' : Nat} (h : m.Keeps m' low high)
    (h' : m'.Keeps m'' low' high') (hlow : low'' ≤ low) (hlow' : low'' ≤ low')
    (hhigh : high ≤ high'') (hhigh' : high' ≤ high'') : m.Keeps m'' low'' high'' := by
  refine ⟨h'.memory.trans h.memory, h'.events.trans h.events, h'.status, fun r hr => ?_⟩
  have hfirst : m'.get r = m.get r :=
    h.registers r fun k hk hk' => hr k (hlow.trans hk) (Nat.lt_of_lt_of_le hk' hhigh)
  have hsecond : m''.get r = m'.get r :=
    h'.registers r fun k hk hk' => hr k (hlow'.trans hk) (Nat.lt_of_lt_of_le hk' hhigh')
  rw [hsecond, hfirst]

/-- What is changed in two parts in the same registers. -/
lemma Keeps.append {low high : Nat} (h : m.Keeps m' low high) (h' : m'.Keeps m'' low high) :
    m.Keeps m'' low high :=
  h.trans h' (Nat.le_refl _) (Nat.le_refl _) (Nat.le_refl _) (Nat.le_refl _)

/-- A register below those that are changed. -/
lemma Keeps.bank {low high k : Nat} (h : m.Keeps m' low high) (hhigh : high ≤ bankSize)
    (hk : k < low) (hk' : k < bankSize) : m'.get (bank k) = m.get (bank k) := by
  refine h.registers _ fun j hj hj' heq => ?_
  have hsame : k = j := bank_injective hk' (Nat.lt_of_lt_of_le hj' hhigh) heq
  omega

/-- The frame pointer stays as it is. -/
lemma Keeps.fp {low high : Nat} (h : m.Keeps m' low high) (hhigh : high ≤ bankSize) :
    m'.get .fp = m.get .fp :=
  h.registers _ fun _ _ hj heq => (bank_ne (Nat.lt_of_lt_of_le hj hhigh)).2.1 heq.symm

/-- The stack pointer stays as it is. -/
lemma Keeps.sp {low high : Nat} (h : m.Keeps m' low high) (hhigh : high ≤ bankSize) :
    m'.get .sp = m.get .sp :=
  h.registers _ fun _ _ hj heq => (bank_ne (Nat.lt_of_lt_of_le hj hhigh)).2.2.1 heq.symm

/-- The return register stays as it is. -/
lemma Keeps.ra {low high : Nat} (h : m.Keeps m' low high) (hhigh : high ≤ bankSize) :
    m'.get .ra = m.get .ra :=
  h.registers _ fun _ _ hj heq => (bank_ne (Nat.lt_of_lt_of_le hj hhigh)).2.2.2 heq.symm

end Machine

/-! ### Labels -/

/-- The symbols of code resolve as they should: a label leads to its place, and what is imported is
not in the code. -/
structure Linked (code : Code) : Prop where
  label : ∀ name rest, .label name :: rest <:+ code →
    findLabel name code = some (.label name :: rest)
  imports : ∀ name ∈ runtimeProcedures.map RuntimeProcedure.name ++ [indexErrorLabel],
    findLabel name code = none

/-- A label that is in the code once leads to its place. -/
lemma findLabel_eq_some {code rest : Code} {name : String} (hnodup : (symbols code).Nodup)
    (h : .label name :: rest <:+ code) : findLabel name code = some (.label name :: rest) := by
  induction code with
  | nil => cases List.eq_nil_of_suffix_nil h
  | cons i code ih =>
    rw [findLabel]
    rcases List.suffix_cons_iff.mp h with heq | hsuffix
    · cases heq
      exact if_pos rfl
    · have hmem : name ∈ symbols code :=
        List.mem_filterMap.mpr ⟨_, hsuffix.subset List.mem_cons_self, rfl⟩
      have hne : i ≠ .label name := by
        rintro rfl
        exact (List.nodup_cons.mp hnodup).1 hmem
      rw [if_neg hne]
      refine ih ?_ hsuffix
      exact hnodup.sublist (List.Sublist.filterMap _ (List.sublist_cons_self i code))

/-- A symbol that is no label in the code leads nowhere. -/
lemma findLabel_eq_none {code : Code} {name : String} (h : .label name ∉ code) :
    findLabel name code = none := by
  induction code with
  | nil => rfl
  | cons i code ih =>
    rw [List.mem_cons, not_or] at h
    rw [findLabel, if_neg (Ne.symm h.1)]
    exact ih h.2

/-- What comes after a piece of the rest of the code is a rest of the code. -/
lemma suffix_of_append {code part rest whole : Code} (h : whole <:+ code)
    (hwhole : whole = part ++ rest) : rest <:+ code := by
  rw [hwhole] at h
  exact (List.suffix_append part rest).trans h

/-! ### Running -/

namespace Host

variable {code : Code} (host : Host code)

/-- The machine gets from one state to another in so many steps, and until then the run goes on
without anything being seen. -/
structure Leads (m : Machine) (n : Nat) (m' : Machine) : Prop where
  after : host.after m n = m'
  quiet : ∀ k < n, (host.after m k).status = .running ∧ (host.after m k).events = m.events

/-- The machine gets from one state to another. -/
def Reaches (m m' : Machine) : Prop := ∃ n, host.Leads m n m'

/-- The machine gets from one state to another in a step at least. -/
def Advances (m m' : Machine) : Prop := ∃ n, host.Leads m (n + 1) m'

variable {host} {m m' m'' : Machine}

/-- A machine that is not running stays as it is. -/
lemma step_of_ended (h : m.status ≠ .running) : host.step m = m := if_neg h

/-- Steps that come after steps. -/
lemma after_add {n k : Nat} : host.after m (n + k) = host.after (host.after m n) k := by
  induction k with
  | zero => rfl
  | succ k ih =>
    rw [← Nat.add_assoc, after, ih]
    rfl

/-- Two ways one after the other. -/
lemma Leads.trans {n k : Nat} (h : host.Leads m n m') (hevents : m'.events = m.events)
    (h' : host.Leads m' k m'') : host.Leads m (n + k) m'' := by
  refine ⟨?_, fun j hj => ?_⟩
  · rw [after_add, h.after, h'.after]
  · rcases Nat.lt_or_ge j n with hlt | hge
    · exact h.quiet j hlt
    · obtain ⟨i, rfl⟩ := Nat.exists_eq_add_of_le hge
      rw [after_add, h.after, ← hevents]
      exact h'.quiet i (Nat.lt_of_add_lt_add_left hj)

/-- A machine is where it is. -/
lemma Reaches.refl : host.Reaches m m :=
  ⟨0, rfl, fun k hk => absurd hk (Nat.not_lt_zero k)⟩

/-- A step leads to the next state. -/
lemma Advances.one (hstep : host.step m = m') (hrun : m.status = .running) : host.Advances m m' := by
  refine ⟨0, hstep, fun k hk => ?_⟩
  obtain rfl : k = 0 := Nat.lt_one_iff.mp hk
  exact ⟨hrun, rfl⟩

/-- A way of a step at least is a way. -/
lemma Advances.reaches (h : host.Advances m m') : host.Reaches m m' :=
  h.imp' (· + 1) fun _ hn => hn

/-- Two ways one after the other. -/
lemma Reaches.trans (h : host.Reaches m m') (hevents : m'.events = m.events)
    (h' : host.Reaches m' m'') : host.Reaches m m'' := by
  obtain ⟨n, hn⟩ := h
  obtain ⟨k, hk⟩ := h'
  exact ⟨n + k, hn.trans hevents hk⟩

/-- A way that ends with a step. -/
lemma Reaches.advances (h : host.Reaches m m') (hevents : m'.events = m.events)
    (h' : host.Advances m' m'') : host.Advances m m'' := by
  obtain ⟨n, hn⟩ := h
  obtain ⟨k, hk⟩ := h'
  exact ⟨n + k, hn.trans hevents hk⟩

/-- A way that starts with a step. -/
lemma Advances.trans (h : host.Advances m m') (hevents : m'.events = m.events)
    (h' : host.Reaches m' m'') : host.Advances m m'' := by
  obtain ⟨n, hn⟩ := h
  obtain ⟨k, hk⟩ := h'
  have hboth := hn.trans hevents hk
  rw [Nat.add_right_comm] at hboth
  exact ⟨n + k, hboth⟩

/-! ### Single instructions -/

section
variable {rest : Code}

/-- An arithmetic instruction that leaves the stack pointer alone. -/
lemma step_arith {op : ArithOp} {target left : Register} {right : Operand} {w : Bits}
    (hrest : m.rest = .arith op target left right :: rest) (htarget : target ≠ .sp)
    (hw : op.apply (m.get left) (m.operand right) = some w)
    (hrun : m.status = .running) :
    host.step m = (m.set target w).goTo rest := by
  unfold step compute
  rw [if_pos hrun, hrest]
  dsimp only
  rw [if_neg (fun h => htarget h.2.1), hw]

/-- A division by zero. -/
lemma step_arith_none {op : ArithOp} {target left : Register} {right : Operand}
    (hrest : m.rest = .arith op target left right :: rest) (htarget : target ≠ .sp)
    (hw : op.apply (m.get left) (m.operand right) = none)
    (hrun : m.status = .running) :
    host.step m = m.halt .divisionByZero := by
  unfold step compute
  rw [if_pos hrun, hrest]
  dsimp only
  rw [if_neg (fun h => htarget h.2.1), hw]

/-- An integer is loaded. -/
lemma step_loadInteger {target : Register} {i : Int}
    (hrest : m.rest = loadInteger target i :: rest) (htarget : target ≠ .sp)
    (hrun : m.status = .running) :
    host.step m = (m.set target (BitVec.ofInt 32 i)).goTo rest := by
  refine step_arith hrest htarget ?_ hrun
  rw [Machine.get_zero]
  exact congrArg some (BitVec.zero_add _)

/-- A word is loaded. -/
lemma step_load {target base : Register} {offset : Int} {a : Nat}
    (hrest : m.rest = .load target base offset :: rest) (ha : m.address? base offset = some a)
    (hrun : m.status = .running) :
    host.step m = (m.set target (m.memory a)).goTo rest := by
  unfold step
  rw [if_pos hrun, hrest]
  dsimp only
  rw [ha]

/-- A word is stored. -/
lemma step_store {source base : Register} {offset : Int} {a : Nat}
    (hrest : m.rest = .store source base offset :: rest) (ha : m.address? base offset = some a)
    (hrun : m.status = .running) :
    host.step m =
      { m with memory := writeWord m.memory a (m.get source) }.goTo rest := by
  unfold step
  rw [if_pos hrun, hrest]
  dsimp only
  rw [ha]

/-- A branch that is taken. -/
lemma step_branch_of_holds {op : BranchOp} {left right : Register} {target : String}
    (hrest : m.rest = .branch op left right target :: rest)
    (hholds : op.holds (m.get left) (m.get right) = true)
    (hrun : m.status = .running) : host.step m = host.jump m target := by
  unfold step
  rw [if_pos hrun, hrest]
  exact if_pos hholds

/-- A branch that is not taken. -/
lemma step_branch_of_not_holds {op : BranchOp} {left right : Register} {target : String}
    (hrest : m.rest = .branch op left right target :: rest)
    (hholds : op.holds (m.get left) (m.get right) = false)
    (hrun : m.status = .running) : host.step m = m.goTo rest := by
  unfold step
  rw [if_pos hrun, hrest]
  exact if_neg (by rw [hholds]; exact Bool.false_ne_true)

/-- A jump. -/
lemma step_jump {target : String} (hrest : m.rest = .jump target :: rest)
    (hrun : m.status = .running) :
    host.step m = host.jump m target := by
  unfold step
  rw [if_pos hrun, hrest]

/-- A label is passed. -/
lemma step_label {name : String} (hrest : m.rest = .label name :: rest)
    (hrun : m.status = .running) :
    host.step m = m.goTo rest := by
  unfold step
  rw [if_pos hrun, hrest]

/-- A call. -/
lemma step_call {name : String} (hrest : m.rest = .call name :: rest)
    (hrun : m.status = .running) :
    host.step m = host.call m name rest := by
  unfold step
  rw [if_pos hrun, hrest]

/-- A jump to the address in a register. -/
lemma step_jumpRegister {r : Register} (hrest : m.rest = .jumpRegister r :: rest)
    (hrun : m.status = .running) :
    host.step m = host.goBack m (m.get r) := by
  unfold step
  rw [if_pos hrun, hrest]

end

/-- Going to a label in the code. -/
lemma jump_label (hlinked : Linked code) {name : String} {rest : Code}
    (h : .label name :: rest <:+ code) : host.jump m name = m.goTo (.label name :: rest) := by
  unfold jump
  rw [hlinked.label name rest h]

/-- A jump to a label in the code goes on behind the label. -/
lemma advances_jump (hlinked : Linked code) {name : String} {rest rest' : Code}
    (hrest : m.rest = .jump name :: rest') (h : .label name :: rest <:+ code)
    (hrun : m.status = .running) : host.Advances m (m.goTo rest) := by
  have hjump : host.step m = m.goTo (.label name :: rest) := by
    rw [step_jump hrest hrun, jump_label hlinked h]
  have hlabel : host.step (m.goTo (.label name :: rest)) = m.goTo rest := step_label rfl hrun
  exact (Advances.one hjump hrun).trans rfl (Advances.one hlabel hrun).reaches

/-- A branch to a label in the code that is taken goes on behind the label. -/
lemma advances_branch (hlinked : Linked code) {op : BranchOp} {left right : Register}
    {name : String} {rest rest' : Code} (hrest : m.rest = .branch op left right name :: rest')
    (h : .label name :: rest <:+ code) (hholds : op.holds (m.get left) (m.get right) = true)
    (hrun : m.status = .running) : host.Advances m (m.goTo rest) := by
  have hbranch : host.step m = m.goTo (.label name :: rest) := by
    rw [step_branch_of_holds hrest hholds hrun, jump_label hlinked h]
  have hlabel : host.step (m.goTo (.label name :: rest)) = m.goTo rest := step_label rfl hrun
  exact (Advances.one hbranch hrun).trans rfl (Advances.one hlabel hrun).reaches

/-- Going to the index error ends the run. -/
lemma jump_indexError (hlinked : Linked code) :
    host.jump m indexErrorLabel = m.halt .indexError := by
  unfold jump
  rw [hlinked.imports indexErrorLabel (by simp)]
  rfl

/-! ### Evaluations -/

variable (host) in
/-- The machine carries out an evaluation, which makes sense: it reaches a good state for the value,
or the end of the run that belongs to the fault. -/
def Evaluates {α : Type} (m : Machine) (value : Except NoValue α) (good : α → Machine → Prop) :
    Prop :=
  (∃ a m', value = .ok a ∧ host.Reaches m m' ∧ m'.events = m.events ∧ good a m') ∨
    ∃ fault m', value = .error fault ∧ fault ≠ .meaningless ∧ host.Reaches m m' ∧
      m'.events = m.events ∧ m'.status = fault.status

section
variable {α β : Type} {value : Except NoValue α} {good good' : α → Machine → Prop}

/-- A value that is there, at a state that is reached. -/
lemma Evaluates.ok {a : α} (hreaches : host.Reaches m m') (hevents : m'.events = m.events)
    (h : good a m') : host.Evaluates m (.ok a) good :=
  .inl ⟨a, m', rfl, hreaches, hevents, h⟩

/-- A fault that ends the run. -/
lemma Evaluates.error {fault : NoValue} (hfault : fault ≠ .meaningless) (hreaches : host.Reaches m m')
    (hevents : m'.events = m.events) (h : m'.status = fault.status) :
    host.Evaluates m (.error fault) good :=
  .inr ⟨fault, m', rfl, hfault, hreaches, hevents, h⟩

/-- An evaluation goes on from its value. -/
lemma Evaluates.bind {f : α → Except NoValue β} {good' : β → Machine → Prop}
    (h : host.Evaluates m value good) (hf : ∀ a m', good a m' → host.Evaluates m' (f a) good') :
    host.Evaluates m (value >>= f) good' := by
  rcases h with ⟨a, m', rfl, hreaches, hevents, hgood⟩ |
    ⟨fault, m', rfl, hsense, hreaches, hevents, hend⟩
  · rcases hf a m' hgood with ⟨b, m'', hb, hreaches', hevents', hgood'⟩ |
      ⟨fault, m'', hfault, hsense, hreaches', hevents', hend⟩
    · exact .inl ⟨b, m'', hb, hreaches.trans hevents hreaches', hevents'.trans hevents, hgood'⟩
    · exact .inr ⟨fault, m'', hfault, hsense, hreaches.trans hevents hreaches',
        hevents'.trans hevents, hend⟩
  · exact .inr ⟨fault, m', rfl, hsense, hreaches, hevents, hend⟩

/-- A state that is good enough for the value. -/
lemma Evaluates.mono (h : host.Evaluates m value good)
    (hgood : ∀ a m', value = .ok a → good a m' → good' a m') : host.Evaluates m value good' := by
  rcases h with ⟨a, m', ha, hreaches, hevents, hm'⟩ | hfault
  · exact .inl ⟨a, m', ha, hreaches, hevents, hgood a m' ha hm'⟩
  · exact .inr hfault

/-- An evaluation that goes on to a better state. -/
lemma Evaluates.andThen (h : host.Evaluates m value good)
    (hgood : ∀ a m', good a m' → ∃ m'', host.Reaches m' m'' ∧ m''.events = m'.events ∧ good' a m'') :
    host.Evaluates m value good' := by
  rcases h with ⟨a, m', ha, hreaches, hevents, hm'⟩ | hfault
  · obtain ⟨m'', hreaches', hevents', hm''⟩ := hgood a m' hm'
    exact .inl ⟨a, m'', ha, hreaches.trans hevents hreaches', hevents'.trans hevents, hm''⟩
  · exact .inr hfault

/-- An evaluation that starts after a few steps. -/
lemma Evaluates.of_reaches (hreaches : host.Reaches m m') (hevents : m'.events = m.events)
    (h : host.Evaluates m' value good) : host.Evaluates m value good := by
  rcases h with ⟨a, m'', ha, hreaches', hevents', hgood⟩ |
    ⟨fault, m'', hfault, hsense, hreaches', hevents', hend⟩
  · exact .inl ⟨a, m'', ha, hreaches.trans hevents hreaches', hevents'.trans hevents, hgood⟩
  · exact .inr ⟨fault, m'', hfault, hsense, hreaches.trans hevents hreaches',
      hevents'.trans hevents, hend⟩

/-- An evaluation that starts after a step. -/
lemma Evaluates.step (hrun : m.status = .running) (hstep : host.step m = m')
    (hevents : m'.events = m.events) (h : host.Evaluates m' value good) :
    host.Evaluates m value good :=
  .of_reaches (Advances.one hstep hrun).reaches hevents h

end

end Host

/-! ### A host -/

/-- What surrounds a machine on which every call of the runtime library returns, with nothing written
to its references.  A place to return to has the number of instructions from there on as its
address. -/
def Host.plain (code : Code) (h : code.length < addresses) : Host code where
  library := ⟨fun _ => some []⟩
  scratch := id
  stackLimit := 0
  returnAddress rest := BitVec.ofNat 32 (rest.length + 1)
  exit := 0
  returnAddress_injective := by
    intro r r' ⟨name, hr⟩ ⟨name', hr'⟩ heq
    have hlength := hr.length_le
    have hlength' := hr'.length_le
    rw [List.length_cons] at hlength hlength'
    unfold addresses at h
    have hsame : r.length = r'.length := by
      have hnat := congrArg BitVec.toNat heq
      rw [BitVec.toNat_ofNat, BitVec.toNat_ofNat, Nat.mod_eq_of_lt (by omega),
        Nat.mod_eq_of_lt (by omega)] at hnat
      omega
    have hsuffix := (List.suffix_cons _ r).trans hr
    have hsuffix' := (List.suffix_cons _ r').trans hr'
    exact (List.suffix_of_suffix_length_le hsuffix hsuffix' hsame.le).eq_of_length hsame
  returnAddress_ne_exit := by
    intro r ⟨name, hr⟩ heq
    have hlength := hr.length_le
    rw [List.length_cons] at hlength
    unfold addresses at h
    have hnat := congrArg BitVec.toNat heq
    rw [BitVec.toNat_ofNat, Nat.mod_eq_of_lt (by omega)] at hnat
    exact absurd hnat (Nat.succ_ne_zero _)

end TreeCompiler
