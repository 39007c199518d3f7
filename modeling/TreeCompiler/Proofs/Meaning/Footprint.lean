import TreeCompiler.Proofs.Meaning.Execution

/-!
# What code leaves alone, and where it stops

The code of expressions writes nothing but registers of the bank from the first free one on.  That can
be seen from its instructions one by one (`Instruction.WritesFrom`), and so it holds in every state
that a machine gets to with the code, also if the machine does not get to its end
(`Host.preserves_after`).

A machine that has left its code goes no further.  So there is at most one state in which it has done
so without getting stuck (`Host.Stops.unique`), and an evaluation that is carried out decides what can
be seen in such a state (`Host.Evaluates.of_stops`).
-/

namespace TreeCompiler

/-! ### What instructions write -/

/-- An instruction writes nothing but a register of the bank, from one on. -/
def Instruction.WritesFrom (n : Nat) : Instruction → Prop
  | .arith _ target _ _ | .load target _ _ => ∃ k, n ≤ k ∧ k < bankSize ∧ target = bank k
  | .label _ | .branch _ _ _ _ | .jump _ => True
  | _ => False

/-- All the instructions of a piece of code write nothing but registers of the bank, from one on. -/
def Code.WritesFrom (n : Nat) (code : Code) : Prop := ∀ i ∈ code, i.WritesFrom n

section
variable {n n' : Nat} {code code' : Code}

/-- What writes registers from one on writes them from a lower one on. -/
lemma Code.WritesFrom.mono (h : Code.WritesFrom n code) (hle : n' ≤ n) :
    Code.WritesFrom n' code := by
  intro i hi
  have hwrites := h i hi
  cases i with
  | arith | load =>
    obtain ⟨k, hk, hlt, rfl⟩ := hwrites
    exact ⟨k, hle.trans hk, hlt, rfl⟩
  | label | branch | jump => trivial
  | _ => exact hwrites.elim

/-- Two pieces of code one after the other. -/
lemma Code.WritesFrom.append (h : Code.WritesFrom n code) (h' : Code.WritesFrom n code') :
    Code.WritesFrom n (code ++ code') :=
  List.forall_mem_append.mpr ⟨h, h'⟩

/-- Loading the length of an array and going to an element writes three registers. -/
lemma writesFrom_indexCode (hn : n + 3 ≤ bankSize) {length size : Nat} :
    Code.WritesFrom n (indexCode n length size) := by
  intro i hi
  simp only [indexCode, List.mem_cons, List.not_mem_nil, or_false] at hi
  rcases hi with rfl | rfl | rfl | rfl
  · exact ⟨n + 2, by omega, by omega, rfl⟩
  · trivial
  · exact ⟨n + 1, by omega, by omega, rfl⟩
  · exact ⟨n, by omega, by omega, rfl⟩

/-- The code of an operator writes the register of its left operand. -/
lemma BinaryOp.writesFrom_code (hn : n < bankSize) (op : BinaryOp) {l : Nat} :
    Code.WritesFrom n (op.code n l) := by
  have hwrites : ∃ k, n ≤ k ∧ k < bankSize ∧ bank n = bank k := ⟨n, Nat.le_refl n, hn, rfl⟩
  intro i hi
  unfold BinaryOp.code at hi
  split at hi
  · obtain rfl := List.mem_singleton.mp hi
    exact hwrites
  · simp only [compareCode, List.mem_cons, List.not_mem_nil, or_false] at hi
    rcases hi with rfl | rfl | rfl | rfl | rfl | rfl
    · trivial
    · exact hwrites
    · trivial
    · trivial
    · exact hwrites
    · trivial

variable {places : List (String × Place)}

mutual

/-- The code of a variable writes registers from the first free one on. -/
lemma Variable.writesFrom_code (v : Variable) {n l : Nat} (hn : n + v.need ≤ bankSize) :
    Code.WritesFrom n (v.code places n l) := by
  match v with
  | .named _ name =>
    have hwrites : ∃ k, n ≤ k ∧ k < bankSize ∧ bank n = bank k := ⟨n, Nat.le_refl n, hn, rfl⟩
    rw [Variable.code]
    intro i hi
    split at hi
    · rw [Place.code] at hi
      rcases List.mem_cons.mp hi with rfl | hi
      · exact hwrites
      · split at hi
        · obtain rfl := List.mem_singleton.mp hi
          exact hwrites
        · cases hi
    · cases hi
  | .element _ array index =>
    rw [Variable.need] at hn
    rw [Variable.code]
    have harray := array.writesFrom_code (n := n) (l := l) (by omega)
    have hindex := index.writesFrom_code (n := n + 1) (l := l + array.labels) (by omega)
    refine (harray.append (hindex.mono (Nat.le_succ n))).append ?_
    split
    · exact writesFrom_indexCode (by omega)
    · exact fun i hi => by cases hi

/-- The code of an expression writes registers from the first free one on. -/
lemma Expr.writesFrom_code (e : Expr) {n l : Nat} (hn : n + e.need ≤ bankSize) :
    Code.WritesFrom n (e.code places n l) := by
  have hneed := e.need_pos
  have hwrites : ∃ k, n ≤ k ∧ k < bankSize ∧ bank n = bank k :=
    ⟨n, Nat.le_refl n, by omega, rfl⟩
  match e with
  | .int _ value => exact List.forall_mem_singleton.mpr hwrites
  | .bool _ value => exact List.forall_mem_singleton.mpr hwrites
  | .read _ source =>
    exact (source.writesFrom_code hn).append (List.forall_mem_singleton.mpr hwrites)
  | .negate _ operand =>
    exact (operand.writesFrom_code hn).append (List.forall_mem_singleton.mpr hwrites)
  | .binary _ op left right =>
    rw [Expr.need] at hn
    have hleft := left.writesFrom_code (n := n) (l := l) (by omega)
    have hright := right.writesFrom_code (n := n + 1) (l := l + left.labels) (by omega)
    exact (hleft.append (hright.mono (Nat.le_succ n))).append (op.writesFrom_code (by omega))

end

/-- The code of a condition writes registers from the first free one on. -/
lemma Expr.writesFrom_testCode (test : Expr) {l : Nat} (hn : n + test.need ≤ bankSize)
    {falseLabel : String} :
    Code.WritesFrom n (test.testCode places n l ++ [test.testBranch falseLabel n]) := by
  have hbranch : Code.WritesFrom n [test.testBranch falseLabel n] := by
    refine List.forall_mem_singleton.mpr ?_
    cases test with
    | binary _ op left right =>
      rw [Expr.testBranch]
      split <;> trivial
    | int | bool | read | negate => trivial
  refine Code.WritesFrom.append ?_ hbranch
  cases test with
  | int | bool | read | negate => exact Expr.writesFrom_code _ hn
  | binary mark op left right =>
    rw [Expr.testCode]
    split
    · rw [Expr.need] at hn
      have hleft : Code.WritesFrom n (left.code places n l) := left.writesFrom_code (by omega)
      have hright : Code.WritesFrom (n + 1) (right.code places (n + 1) (l + left.labels)) :=
        right.writesFrom_code (by omega)
      exact hleft.append (hright.mono (Nat.le_succ n))
    · exact Expr.writesFrom_code _ hn

end

/-! ### What stays as it is -/

/-- A machine has the memory and the events of another one, and all the registers but those of the
bank from one on. -/
structure Machine.Preserves (m m' : Machine) (n : Nat) : Prop where
  memory : m'.memory = m.memory
  events : m'.events = m.events
  registers : ∀ r : Register, r.number.toNat < 8 + n ∨ 24 ≤ r.number.toNat → m'.get r = m.get r

namespace Machine

variable {m m' : Machine} {n : Nat}

/-- Another place in the code or another status changes nothing else. -/
lemma Preserves.congr (h : m.Preserves m' n) {rest : Code} {status : Status} :
    m.Preserves { m' with rest, status } n :=
  ⟨h.memory, h.events, h.registers⟩

/-- Setting a register of the bank changes nothing else. -/
lemma Preserves.set (h : m.Preserves m' n) {k : Nat} (hk : n ≤ k) (hlt : k < bankSize) {w : Bits} :
    m.Preserves (m'.set (bank k) w) n := by
  have hnumber : ∀ k < bankSize, (bank k).number.toNat = 8 + k := by decide
  refine ⟨h.memory, h.events, fun r hr => ?_⟩
  have hne : r ≠ bank k := by
    rintro rfl
    rw [hnumber k hlt] at hr
    unfold bankSize at hlt
    omega
  rw [get_set_of_ne hne]
  exact h.registers r hr

end Machine

/-- A place that a label leads to is a place in the code. -/
lemma suffix_of_findLabel {name : String} {code rest : Code} (h : findLabel name code = some rest) :
    rest <:+ code := by
  induction code with
  | nil => cases h
  | cons i code ih =>
    rw [findLabel] at h
    split at h
    · cases h
      exact List.suffix_rfl
    · exact (ih h).trans (List.suffix_cons i code)

namespace Host

variable {code : Code} {host : Host code} {m m' : Machine} {n : Nat}

/-- What a step does in code with a footprint: it passes an instruction, which may write a register,
or it goes to a label, or it leaves the machine where it is. -/
lemma step_cases (hcode : Code.WritesFrom n code) (hsuffix : m.rest <:+ code) :
    (∃ i rest, m.rest = i :: rest ∧ (host.step m = m.goTo rest ∨
      ∃ k w, n ≤ k ∧ k < bankSize ∧ host.step m = (m.set (bank k) w).goTo rest)) ∨
    (∃ name rest, findLabel name code = some rest ∧ host.step m = m.goTo rest) ∨
    ∃ status, host.step m = m.halt status := by
  unfold step
  split
  swap
  · exact .inr (.inr ⟨m.status, rfl⟩)
  split
  · exact .inr (.inr ⟨.stuck, rfl⟩)
  · rename_i i rest hrest
    have hjump : ∀ name, (∃ rest, findLabel name code = some rest ∧
        host.jump m name = m.goTo rest) ∨ ∃ status, host.jump m name = m.halt status := by
      intro name
      unfold jump
      split
      · rename_i target htarget
        exact .inl ⟨target, htarget, rfl⟩
      · exact .inr ⟨_, rfl⟩
    rw [hrest] at hsuffix
    have hwrites := hcode i (hsuffix.subset List.mem_cons_self)
    cases i with
    | label => exact .inl ⟨_, rest, hrest, .inl rfl⟩
    | jump target => exact .inr ((hjump target).imp_left fun h => ⟨target, h⟩)
    | branch op left right target =>
      dsimp only
      split
      · exact .inr ((hjump target).imp_left fun h => ⟨target, h⟩)
      · exact .inl ⟨_, rest, hrest, .inl rfl⟩
    | arith op target left right =>
      obtain ⟨k, hk, hlt, rfl⟩ := hwrites
      dsimp only [compute]
      split
      · exact .inr (.inr ⟨_, rfl⟩)
      · split
        · exact .inl ⟨_, rest, hrest, .inr ⟨k, _, hk, hlt, rfl⟩⟩
        · exact .inr (.inr ⟨_, rfl⟩)
    | load target base offset =>
      obtain ⟨k, hk, hlt, rfl⟩ := hwrites
      dsimp only
      split
      · exact .inl ⟨_, rest, hrest, .inr ⟨k, _, hk, hlt, rfl⟩⟩
      · exact .inr (.inr ⟨_, rfl⟩)
    | _ => exact hwrites.elim

/-- A step in code with a footprint leaves everything else alone and stays in the code. -/
lemma preserves_step (hcode : Code.WritesFrom n code) (h : m.Preserves m' n)
    (hsuffix : m'.rest <:+ code) :
    m.Preserves (host.step m') n ∧ (host.step m').rest <:+ code := by
  rcases host.step_cases hcode hsuffix with
    ⟨i, rest, hrest, hstep⟩ | ⟨name, rest, hfind, hstep⟩ | ⟨status, hstep⟩
  · rw [hrest] at hsuffix
    have hafter : rest <:+ code := (List.suffix_cons i rest).trans hsuffix
    rcases hstep with hstep | ⟨k, w, hk, hlt, hstep⟩
    · rw [hstep]
      exact ⟨h.congr, hafter⟩
    · rw [hstep]
      exact ⟨(h.set hk hlt).congr, hafter⟩
  · rw [hstep]
    exact ⟨h.congr, suffix_of_findLabel hfind⟩
  · rw [hstep]
    exact ⟨h.congr, hsuffix⟩

/-- A run in code with a footprint leaves everything else alone in every state. -/
lemma preserves_after (hcode : Code.WritesFrom n code) (hsuffix : m.rest <:+ code) (k : Nat) :
    m.Preserves (host.after m k) n ∧ (host.after m k).rest <:+ code := by
  induction k with
  | zero => exact ⟨⟨rfl, rfl, fun _ _ => rfl⟩, hsuffix⟩
  | succ k ih => exact preserves_step hcode ih.1 ih.2

end Host

/-! ### Where code stops -/

/-- A machine has come to the end of its code. -/
structure Machine.AtEnd (m : Machine) : Prop where
  status : m.status = .running
  rest : m.rest = []

namespace Host

variable {code : Code} {host : Host code} {m m' : Machine}

variable (host) in
/-- A machine stops: it is not stuck, and it stays as it is or gets stuck where it is. -/
structure Stops (m : Machine) : Prop where
  status : m.status ≠ .stuck
  step : host.step m = m ∨ host.step m = m.halt .stuck

/-- A machine stops at the end of its code. -/
lemma Stops.of_atEnd (h : m.AtEnd) : host.Stops m := by
  refine ⟨by rw [h.status]; decide, .inr ?_⟩
  unfold Host.step
  rw [if_pos h.status, h.rest]

/-- A machine stops at a fault. -/
lemma Stops.of_fault {fault : NoValue} (hfault : fault ≠ .meaningless)
    (h : m.status = fault.status) : host.Stops m := by
  have hends : fault.status ≠ .stuck ∧ fault.status ≠ .running := by
    cases fault with
    | meaningless => exact absurd rfl hfault
    | indexOutOfRange | divisionByZero => decide
  exact ⟨h ▸ hends.1, .inl (step_of_ended (h ▸ hends.2))⟩

/-- After a machine has stopped it stays as it is or is stuck. -/
lemma Stops.after (h : host.Stops m) (k : Nat) :
    host.after m k = m ∨ host.after m k = m.halt .stuck := by
  have hstuck : host.step (m.halt .stuck) = m.halt .stuck :=
    step_of_ended (fun heq => by cases heq)
  induction k with
  | zero => exact .inl rfl
  | succ k ih =>
    rw [Host.after]
    rcases ih with hk | hk
    · rw [hk]
      exact h.step
    · rw [hk]
      exact .inr hstuck

/-- A run stops in one state only. -/
lemma Stops.unique {j k : Nat} (hj : host.Stops (host.after m j))
    (hk : host.Stops (host.after m k)) : host.after m j = host.after m k := by
  have hle : ∀ {j k : Nat}, j ≤ k → host.Stops (host.after m j) → host.Stops (host.after m k) →
      host.after m j = host.after m k := by
    intro j k hle hj hk
    obtain ⟨i, rfl⟩ := Nat.exists_eq_add_of_le hle
    rw [after_add] at hk ⊢
    rcases hj.after i with heq | heq
    · exact heq.symm
    · exact absurd (by rw [heq]; rfl) hk.status
  rcases Nat.le_total j k with h | h
  · exact hle h hj hk
  · exact (hle h hk hj).symm

/-- An evaluation that is carried out decides what is seen in a state in which the run stops. -/
lemma Evaluates.of_stops {α : Type} {value : Except NoValue α} {good : α → Machine → Prop}
    (h : host.Evaluates m value good) (hgood : ∀ a m', good a m' → host.Stops m') {k : Nat}
    (hk : host.Stops (host.after m k)) : (∃ a, value = .ok a ∧ good a (host.after m k)) ∨
      ∃ fault, value = .error fault ∧ (host.after m k).status = fault.status := by
  rcases h with ⟨a, m', hvalue, ⟨j, hj⟩, -, hm'⟩ |
    ⟨fault, m', hvalue, hsense, ⟨j, hj⟩, -, hends⟩
  · have hstops : host.Stops (host.after m j) := hj.after ▸ hgood a m' hm'
    rw [← hstops.unique hk, hj.after]
    exact .inl ⟨a, hvalue, hm'⟩
  · have hstops : host.Stops (host.after m j) := hj.after ▸ Stops.of_fault hsense hends
    rw [← hstops.unique hk, hj.after]
    exact .inr ⟨fault, hvalue, hends⟩

end Host

end TreeCompiler
