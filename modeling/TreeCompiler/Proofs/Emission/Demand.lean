import TreeCompiler.Proofs.Emission.Code

/-!
# What statements ask of the registers

A statement asks for registers where it evaluates expressions: an assignment, the condition of an
`if` or a `while`, and a call.  `Stmt.demands` lists what is asked for, each with the line of its
statement, in the order in which it is asked for.  The most that is asked for at a time is what the
statement needs (`Stmt.need_eq`), and the first demand that the bank cannot meet is the one that the
emission of the statement stops at (`firstOverflow?`).
-/

namespace TreeCompiler

/-- The registers that the expressions of a statement take, and the line of the statement. -/
structure Demand where
  line : UInt32
  registers : Nat
deriving DecidableEq

mutual

/-- What a statement asks of the registers, in pre-order. -/
def Stmt.demands : Stmt → List Demand
  | .empty _ => []
  | .block _ body => demandsOf body
  | .assign mark target value => [⟨mark.line, max target.need (1 + value.need)⟩]
  | .ifThen mark test thenPart => ⟨mark.line, test.need⟩ :: thenPart.demands
  | .ifThenElse mark test thenPart elsePart =>
    ⟨mark.line, test.need⟩ :: (thenPart.demands ++ elsePart.demands)
  | .loop mark test body => ⟨mark.line, test.need⟩ :: body.demands
  | .call mark _ arguments => [⟨mark.line, argumentsNeed arguments⟩]

/-- What a list of statements asks of the registers, in pre-order. -/
def demandsOf : List Stmt → List Demand
  | [] => []
  | s :: rest => s.demands ++ demandsOf rest

end

/-- What the bodies of a program ask of the registers, in pre-order. -/
def Program.demands (p : Program) : List Demand := p.procedures.flatMap fun q => demandsOf q.body

/-! ### The most that is asked for -/

/-- The largest of some demands. -/
def maxDemand (l : List Demand) : Nat := (l.map Demand.registers).foldr max 0

/-- The largest of two lists of demands. -/
lemma maxDemand_append {l l' : List Demand} :
    maxDemand (l ++ l') = max (maxDemand l) (maxDemand l') := by
  unfold maxDemand
  induction l with
  | nil => exact (Nat.zero_max _).symm
  | cons d l ih =>
    rw [List.cons_append, List.map_cons, List.map_cons, List.foldr_cons, List.foldr_cons, ih,
      Nat.max_assoc]

/-- The largest demand with one more in front. -/
lemma maxDemand_cons {d : Demand} {l : List Demand} :
    maxDemand (d :: l) = max d.registers (maxDemand l) := rfl

/-- No demand is larger than a number if the largest one is not. -/
lemma maxDemand_le_iff {l : List Demand} {n : Nat} :
    maxDemand l ≤ n ↔ ∀ d ∈ l, d.registers ≤ n := by
  induction l with
  | nil => simp [maxDemand]
  | cons d l ih => rw [maxDemand_cons, Nat.max_le, ih, List.forall_mem_cons]

mutual

/-- A statement needs as many registers as the largest of its demands. -/
lemma Stmt.need_eq (s : Stmt) : s.need = maxDemand s.demands := by
  match s with
  | .empty _ => rfl
  | .block _ body => exact needOf_eq body
  | .assign _ _ _ => exact (Nat.max_zero _).symm
  | .ifThen _ test thenPart =>
    rw [Stmt.need, Stmt.demands, maxDemand_cons, ← thenPart.need_eq]
  | .ifThenElse _ test thenPart elsePart =>
    rw [Stmt.need, Stmt.demands, maxDemand_cons, maxDemand_append, ← thenPart.need_eq,
      ← elsePart.need_eq, Nat.max_assoc]
  | .loop _ test body => rw [Stmt.need, Stmt.demands, maxDemand_cons, ← body.need_eq]
  | .call _ _ _ => exact (Nat.max_zero _).symm

/-- A list of statements needs as many registers as the largest of its demands. -/
lemma needOf_eq (body : List Stmt) : needOf body = maxDemand (demandsOf body) := by
  match body with
  | [] => rfl
  | s :: rest => rw [needOf, demandsOf, maxDemand_append, ← s.need_eq, ← needOf_eq rest]

end

/-- A program needs as many registers as the largest of its demands. -/
lemma Program.need_eq (p : Program) : p.need = maxDemand p.demands := by
  unfold Program.need Program.demands
  induction p.procedures with
  | nil => rfl
  | cons q rest ih =>
    rw [List.map_cons, List.foldr_cons, List.flatMap_cons, maxDemand_append, ih, needOf_eq]

/-! ### The first demand that is too large -/

/-- The error for the first demand that is larger than the bank. -/
def firstOverflow? (l : List Demand) : Option (Located EmissionError) :=
  (l.find? fun d => bankSize < d.registers).map fun d => .atLine d.line .registerOverflow

section
variable {l l' : List Demand} {d : Demand} {e : Located EmissionError}

/-- A demand that is too large comes before all that follow. -/
lemma firstOverflow?_cons_of_lt (h : bankSize < d.registers) :
    firstOverflow? (d :: l) = some (.atLine d.line .registerOverflow) := by
  unfold firstOverflow?
  rw [List.find?_cons_of_pos (by simpa using h)]
  rfl

/-- A demand that the bank meets does not count. -/
lemma firstOverflow?_cons_of_le (h : d.registers ≤ bankSize) :
    firstOverflow? (d :: l) = firstOverflow? l := by
  unfold firstOverflow?
  rw [List.find?_cons_of_neg (by simpa using h)]

/-- The first of two lists of demands comes first. -/
lemma firstOverflow?_append :
    firstOverflow? (l ++ l') = (firstOverflow? l).or (firstOverflow? l') := by
  unfold firstOverflow?
  rw [List.find?_append, Option.map_or]

/-- The bank meets all demands if it meets the largest one. -/
lemma firstOverflow?_eq_none (h : maxDemand l ≤ bankSize) : firstOverflow? l = none := by
  unfold firstOverflow?
  rw [Option.map_eq_none_iff, List.find?_eq_none]
  intro d hd
  simpa using maxDemand_le_iff.mp h d hd

/-- The demands before the first one that is too large are met. -/
lemma firstOverflow?_eq_some_iff : firstOverflow? l = some e ↔ ∃ before d after,
    l = before ++ d :: after ∧ (∀ d' ∈ before, d'.registers ≤ bankSize) ∧
      bankSize < d.registers ∧ e = .atLine d.line .registerOverflow := by
  unfold firstOverflow?
  rw [Option.map_eq_some_iff]
  simp only [List.find?_eq_some_iff_append, Bool.not_eq_eq_eq_not, Bool.not_true,
    decide_eq_false_iff_not, decide_eq_true_eq, Nat.not_lt]
  constructor
  · rintro ⟨d, ⟨hlt, before, after, rfl, hbefore⟩, rfl⟩
    exact ⟨before, d, after, rfl, hbefore, hlt, rfl⟩
  · rintro ⟨before, d, after, rfl, hbefore, hlt, rfl⟩
    exact ⟨d, ⟨hlt, before, after, rfl, hbefore⟩, rfl⟩

end

end TreeCompiler
