import Mathlib.Data.List.Induction
import Mathlib.Order.Bounds.Basic
import TreeCompiler.Assembly.RegisterStack

/-!
# The bank of registers as a bounded stack

A bank of registers counts in 8 bits.  Whatever calls are made on it, it behaves like a stack of
numbers whose height is bounded (`BoundedStack.call`), and it computes as with integers
(`RegisterStack.Exact`), if the last register of the bank is not 255.  The two are related by
`RegisterStack.Represents`, which every call keeps (`Represents.call`), and with it every sequence
of calls (`represents_after`).
-/

namespace TreeCompiler

/-! ### Calls on stacks -/

/-- A call on a stack. -/
inductive StackCall where
  | push | pop
deriving DecidableEq

section
variable {σ α : Type} (step : σ → StackCall → Option α × σ)

/-- The state after some calls. -/
def after (s : σ) (calls : List StackCall) : σ := calls.foldl (fun s c => (step s c).2) s

/-- The answers to some calls, in order. -/
def answers (s : σ) : List StackCall → List (Option α)
  | [] => []
  | c :: rest => (step s c).1 :: answers (step s c).2 rest

/-- The last call changes the state that the others lead to. -/
lemma after_concat (s : σ) (calls : List StackCall) (c : StackCall) :
    after step s (calls ++ [c]) = (step (after step s calls) c).2 := by
  rw [after, List.foldl_append]
  rfl

/-- The last call is answered by the state that the others lead to. -/
lemma answers_concat (s : σ) (calls : List StackCall) (c : StackCall) :
    answers step s (calls ++ [c]) = answers step s calls ++ [(step (after step s calls) c).1] := by
  induction calls generalizing s with
  | nil => rfl
  | cons d rest ih =>
    rw [List.cons_append, answers, ih]
    rfl

end

/-! ### Bounded stacks -/

namespace BoundedStack

/-- The answer to a call on a stack, and the stack after it.  The element on top comes first.  What
is put on the stack is as far from the first number as the stack is high, unless the stack is
full. -/
def call (first capacity : Nat) (stack : List Nat) : StackCall → Option Nat × List Nat
  | .push =>
    if stack.length < capacity then
      (some (first + stack.length), (first + stack.length) :: stack)
    else (none, stack)
  | .pop =>
    match stack with
    | [] => (none, [])
    | top :: rest => (some top, rest)

/-- The heights of an empty stack on which calls are made, at the start and after each call. -/
def heights (first capacity : Nat) (calls : List StackCall) : Set Nat :=
  {height | ∃ before, before <+: calls ∧ (after (call first capacity) [] before).length = height}

variable {first capacity : Nat}

/-- Without calls the stack stays empty. -/
lemma heights_nil : heights first capacity [] = {0} := by
  ext height
  simp only [heights, List.prefix_nil, Set.mem_ofPred_eq, exists_eq_left, Set.mem_singleton_iff]
  exact eq_comm

/-- Another call adds the height after it. -/
lemma heights_concat (calls : List StackCall) (c : StackCall) :
    heights first capacity (calls ++ [c]) =
      insert (after (call first capacity) [] (calls ++ [c])).length
        (heights first capacity calls) := by
  ext height
  simp only [heights, List.prefix_concat_iff, Set.mem_ofPred_eq, Set.mem_insert_iff]
  constructor
  · rintro ⟨before, rfl | hbefore, hheight⟩
    · exact .inl hheight.symm
    · exact .inr ⟨before, hbefore, hheight⟩
  · rintro (rfl | ⟨before, hbefore, hheight⟩)
    · exact ⟨_, .inl rfl, rfl⟩
    · exact ⟨before, .inr hbefore, hheight⟩

end BoundedStack

/-! ### Banks as bounded stacks -/

namespace RegisterStack

/-- The answer to a call on a bank, and the bank after it.  A call that takes no register leaves the
bank as it is. -/
def call (s : RegisterStack) (c : StackCall) : Option UInt8 × RegisterStack :=
  match (match c with | .push => s.push | .pop => s.pop) with
  | some (r, s') => (some r, s')
  | none => (none, s)

/-- A call without an answer changes nothing. -/
lemma call_eq_self {s : RegisterStack} {c : StackCall} (h : (s.call c).1 = none) :
    (s.call c).2 = s := by
  unfold call at h ⊢
  split at h
  · cases h
  · rfl

/-- No sum and no difference of 8 bits wraps: what is read off the bank, and what a call changes in
it, is what integers would give. -/
structure Exact (s : RegisterStack) : Prop where
  live : (s.live : Int) = s.next.toNat - s.first.toNat
  push : ∀ r s', s.push = some (r, s') →
    (s'.next.toNat : Int) = s.next.toNat + 1 ∧ (s'.live : Int) = s'.next.toNat - s'.first.toNat
  pop : ∀ r s', s.pop = some (r, s') →
    (s'.next.toNat : Int) = s.next.toNat - 1 ∧ (r.toNat : Int) = s.next.toNat - 1

/-- The number of registers from the first to the last one. -/
def capacity (first last : UInt8) : Nat := last.toNat + 1 - first.toNat

section
variable (first last : UInt8)

/-- The registers of a bank that are in use are the elements of a stack. -/
structure Represents (s : RegisterStack) (stack : List Nat) : Prop where
  first_eq : s.first = first
  last_eq : s.last = last
  next : s.next.toNat = first.toNat + stack.length
  registers : stack.reverse = List.range' first.toNat stack.length
  height_le : stack.length ≤ capacity first last
  height_le_highWater : stack.length ≤ s.highWater

end

namespace Represents

variable {first last : UInt8} {s : RegisterStack} {stack : List Nat}

/-- The number of registers in use is the height of the stack. -/
lemma live (h : Represents first last s stack) : s.live = stack.length := by
  have hle : s.first ≤ s.next := by
    rw [UInt8.le_iff_toNat_le, h.next, h.first_eq]
    omega
  rw [RegisterStack.live, UInt8.toNat_sub_of_le _ _ hle, h.next, h.first_eq]
  omega

/-- Nothing is put on a full stack. -/
lemma push_full (h : Represents first last s stack)
    (hfull : ¬stack.length < capacity first last) : s.push = none := by
  have hover : s.next > s.last := by
    rw [gt_iff_lt, UInt8.lt_iff_toNat_lt, h.next, h.last_eq]
    unfold capacity at hfull
    omega
  rw [push, if_pos hover]

/-- While there is room, the next register is put on the stack.  It is at most the last one, so that
the register behind it has a number too. -/
lemma push_room (hlast : last < 255) (h : Represents first last s stack)
    (hroom : stack.length < capacity first last) :
    ∃ s', s.push = some (s.next, s') ∧ s'.next.toNat = s.next.toNat + 1 ∧
      s'.highWater = max s.highWater (stack.length + 1) ∧
      Represents first last s' ((first.toNat + stack.length) :: stack) := by
  rw [UInt8.lt_iff_toNat_lt] at hlast
  have hbound : s.next.toNat ≤ last.toNat := by
    rw [h.next]
    unfold capacity at hroom
    omega
  have hnot : ¬s.next > s.last := by
    rw [gt_iff_lt, UInt8.lt_iff_toNat_lt, h.last_eq]
    omega
  have hnext : (s.next + 1).toNat = s.next.toNat + 1 := by
    rw [UInt8.toNat_add]
    exact Nat.mod_eq_of_lt (Nat.succ_lt_succ (hbound.trans_lt hlast))
  have hrepresents : ∀ high, stack.length + 1 ≤ high →
      Represents first last { s with next := s.next + 1, highWater := high }
        ((first.toNat + stack.length) :: stack) := fun high hhigh =>
    { first_eq := h.first_eq
      last_eq := h.last_eq
      next := by
        rw [hnext, h.next]
        rfl
      registers := by
        rw [List.reverse_cons, h.registers]
        exact List.range'_1_concat.symm
      height_le := hroom
      height_le_highWater := hhigh }
  have hlive : ({ s with next := s.next + 1 } : RegisterStack).live = stack.length + 1 :=
    (hrepresents _ (Nat.le_refl _)).live
  refine ⟨_, by rw [push, if_neg hnot], hnext, ?_, hrepresents _ ?_⟩
  · exact congrArg (max s.highWater) hlive
  · exact Nat.le_trans (Nat.le_of_eq hlive.symm) (Nat.le_max_right _ _)

/-- Nothing is taken off an empty stack. -/
lemma pop_empty (h : Represents first last s []) : s.pop = none := by
  have hnext : s.next = s.first := by
    rw [← UInt8.toNat_inj, h.next, h.first_eq]
    rfl
  rw [pop, if_pos hnext]

/-- The register on top is taken off. -/
lemma pop_cons {top : Nat} {rest : List Nat} (h : Represents first last s (top :: rest)) :
    ∃ s', s.pop = some (s'.next, s') ∧ s'.next.toNat = top ∧ s'.next.toNat + 1 = s.next.toNat ∧
      s'.highWater = s.highWater ∧ Represents first last s' rest := by
  have hheight : s.next.toNat = first.toNat + (rest.length + 1) := h.next
  have hnot : s.next ≠ s.first := by
    rw [ne_eq, ← UInt8.toNat_inj, hheight, h.first_eq]
    omega
  have hone : (1 : UInt8) ≤ s.next := by
    rw [UInt8.le_iff_toNat_le, hheight]
    exact Nat.le_add_left 1 (first.toNat + rest.length)
  have hnext : (s.next - 1).toNat = first.toNat + rest.length := by
    rw [UInt8.toNat_sub_of_le _ _ hone, hheight]
    rfl
  -- The registers below the top are those that are in use afterwards.
  have hsplit : rest.reverse ++ [top] =
      List.range' first.toNat rest.length ++ [first.toNat + rest.length] := by
    rw [← List.reverse_cons, h.registers, List.length_cons, List.range'_1_concat]
  obtain ⟨hrest, htop⟩ := List.append_inj' hsplit rfl
  refine ⟨{ s with next := s.next - 1 }, by rw [pop, if_neg hnot], ?_, ?_, rfl, ?_⟩
  · rw [hnext, List.singleton_inj.mp htop]
  · rw [hnext, hheight, Nat.add_assoc]
  · exact
      { first_eq := h.first_eq
        last_eq := h.last_eq
        next := hnext
        registers := hrest
        height_le := (Nat.le_succ _).trans h.height_le
        height_le_highWater := (Nat.le_succ _).trans h.height_le_highWater }

/-- A call is answered like one on the stack.  Afterwards the bank represents what the stack has
become, and the high water mark has risen to its height. -/
lemma call (hlast : last < 255) (h : Represents first last s stack) (c : StackCall) :
    (s.call c).1.map UInt8.toNat =
        (BoundedStack.call first.toNat (capacity first last) stack c).1 ∧
      Represents first last (s.call c).2
        (BoundedStack.call first.toNat (capacity first last) stack c).2 ∧
      (s.call c).2.highWater =
        max s.highWater (BoundedStack.call first.toNat (capacity first last) stack c).2.length := by
  have hunchanged : s.highWater = max s.highWater stack.length :=
    (Nat.max_eq_left h.height_le_highWater).symm
  cases c with
  | push =>
    by_cases hroom : stack.length < capacity first last
    · obtain ⟨s', hpush, -, hmark, hs'⟩ := h.push_room hlast hroom
      simp only [RegisterStack.call, BoundedStack.call, hpush, if_pos hroom]
      exact ⟨congrArg some h.next, hs', hmark⟩
    · simp only [RegisterStack.call, BoundedStack.call, h.push_full hroom, if_neg hroom]
      exact ⟨rfl, h, hunchanged⟩
  | pop =>
    cases stack with
    | nil =>
      simp only [RegisterStack.call, BoundedStack.call, h.pop_empty]
      exact ⟨rfl, h, hunchanged⟩
    | cons top rest =>
      obtain ⟨s', hpop, htop, -, hmark, hs'⟩ := h.pop_cons
      simp only [RegisterStack.call, BoundedStack.call, hpop]
      refine ⟨congrArg some htop, hs', ?_⟩
      rw [hmark, Nat.max_eq_left (hmark ▸ hs'.height_le_highWater)]

/-- A bank that represents a stack computes as with integers. -/
lemma exact (hlast : last < 255) (h : Represents first last s stack) : s.Exact where
  live := by
    rw [h.live, h.next, h.first_eq]
    omega
  push r s' hpush := by
    by_cases hroom : stack.length < capacity first last
    · obtain ⟨_, hpush', hnext, -, hs'⟩ := h.push_room hlast hroom
      cases hpush.symm.trans hpush'
      refine ⟨by rw [hnext]; rfl, ?_⟩
      rw [hs'.live, hs'.next, hs'.first_eq]
      omega
    · cases hpush.symm.trans (h.push_full hroom)
  pop r s' hpop := by
    cases stack with
    | nil => cases hpop.symm.trans h.pop_empty
    | cons top rest =>
      obtain ⟨_, hpop', -, hnext, -⟩ := h.pop_cons
      cases hpop.symm.trans hpop'
      omega

end Represents

section
variable (first : UInt8) {last : UInt8}

/-- A new bank represents the empty stack. -/
lemma represents_ofBank : Represents first last (ofBank first last) [] where
  first_eq := rfl
  last_eq := rfl
  next := rfl
  registers := rfl
  height_le := Nat.zero_le _
  height_le_highWater := Nat.zero_le _

/-- Calls on a new bank are answered like those on an empty stack, and lead to a bank that
represents the stack which they lead to. -/
lemma represents_after (hlast : last < 255) (calls : List StackCall) :
    (answers call (ofBank first last) calls).map (Option.map UInt8.toNat) =
        answers (BoundedStack.call first.toNat (capacity first last)) [] calls ∧
      Represents first last (after call (ofBank first last) calls)
        (after (BoundedStack.call first.toNat (capacity first last)) [] calls) := by
  induction calls using List.reverseRecOn with
  | nil => exact ⟨rfl, represents_ofBank first⟩
  | append_singleton calls c ih =>
    obtain ⟨hanswers, hrepresents⟩ := ih
    obtain ⟨hanswer, hafter, -⟩ := hrepresents.call hlast c
    rw [answers_concat, answers_concat, after_concat, after_concat]
    refine ⟨?_, hafter⟩
    rw [List.map_append, hanswers, List.map_singleton, hanswer]

/-- The high water mark is the greatest height that the stack has had. -/
lemma isGreatest_highWater (hlast : last < 255) (calls : List StackCall) :
    IsGreatest (BoundedStack.heights first.toNat (capacity first last) calls)
      (after call (ofBank first last) calls).highWater := by
  induction calls using List.reverseRecOn with
  | nil =>
    rw [BoundedStack.heights_nil]
    exact isGreatest_singleton
  | append_singleton calls c ih =>
    have hmark := ((represents_after first hlast calls).2.call hlast c).2.2
    rw [BoundedStack.heights_concat, after_concat, after_concat, hmark, max_comm]
    exact ih.insert _

end

/-- Whatever calls are made on a new bank of registers, they are answered as on an empty stack that
holds as many registers as there are from the first to the last one.  The registers in use are the
elements of this stack, with the first register at the bottom, so that their number is its height;
the high water mark is the greatest height that it has had; a call without an answer changes
nothing; and no sum or difference of 8 bits wraps. -/
theorem calls_refine_boundedStack (first last : UInt8) (hlast : last < 255)
    (calls : List StackCall) :
    let bank := after call (ofBank first last) calls
    let stack := after (BoundedStack.call first.toNat (capacity first last)) [] calls
    (answers call (ofBank first last) calls).map (Option.map UInt8.toNat) =
        answers (BoundedStack.call first.toNat (capacity first last)) [] calls ∧
      stack.reverse = List.range' first.toNat bank.live ∧
      bank.live = stack.length ∧ stack.length ≤ capacity first last ∧
      IsGreatest (BoundedStack.heights first.toNat (capacity first last) calls) bank.highWater ∧
      (∀ c, (bank.call c).1 = none → (bank.call c).2 = bank) ∧
      bank.Exact := by
  obtain ⟨hanswers, hrepresents⟩ := represents_after first hlast calls
  refine ⟨hanswers, ?_, hrepresents.live, hrepresents.height_le,
    isGreatest_highWater first hlast calls, fun _ => call_eq_self, hrepresents.exact hlast⟩
  rw [hrepresents.live]
  exact hrepresents.registers

/-- A bank of the last two registers that it can have, with one call too many in each direction. -/
theorem calls_refine_boundedStack_lastTwo : (254 : UInt8) < 255 ∧
    (answers call (ofBank 253 254) [.push, .push, .push, .pop, .pop, .pop, .push]).map
        (Option.map UInt8.toNat) =
      [some 253, some 254, none, some 254, some 253, none, some 253] ∧
    IsGreatest (BoundedStack.heights 253 2 [.push, .push, .push, .pop, .pop, .pop, .push]) 2 := by
  obtain ⟨hanswers, -, -, -, hgreatest, -⟩ := calls_refine_boundedStack 253 254 (by decide)
    [.push, .push, .push, .pop, .pop, .pop, .push]
  exact ⟨by decide, hanswers.trans (by decide), hgreatest⟩

end RegisterStack

end TreeCompiler
