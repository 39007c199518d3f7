import TreeCompiler.Proofs.Tree.Numbering

/-!
# Numbering with a counter

The numbers of a program can be taken from one counter that every node asks in its turn: a node
takes the number the counter stands at and moves the counter on.  The counter is a word of 32 bits,
so it cannot be moved on from the largest one.

`number` knows beforehand where each part of the tree starts, because it adds up the sizes of the
parts before it.  Both give the same numbers as long as the counter lasts
(`countDefinitions_eq_some`).
-/

namespace TreeCompiler

/-- A computation that takes numbers from a counter and fails when the counter overflows. -/
abbrev Counter (α : Type) := StateT Nat Option α

/-- A mark takes the number that the counter stands at. -/
def Mark.count (m : Mark) : Counter Mark := fun next =>
  if next + 1 < UInt32.size then some (m.withId next, next + 1) else none

/-! ### The walk with the counter -/

/-- Numbers the nodes of a type from the counter. -/
def TypeExpr.count : TypeExpr → Counter TypeExpr
  | .named m name => do
    let m ← m.count
    return .named m name
  | .array m length base => do
    let m ← m.count
    let base ← base.count
    return .array m length base

mutual

/-- Numbers the nodes of a variable from the counter. -/
def Variable.count : Variable → Counter Variable
  | .named m name => do
    let m ← m.count
    return .named m name
  | .element m array index => do
    let m ← m.count
    let array ← array.count
    let index ← index.count
    return .element m array index

/-- Numbers the nodes of an expression from the counter. -/
def Expr.count : Expr → Counter Expr
  | .int m value => do
    let m ← m.count
    return .int m value
  | .bool m value => do
    let m ← m.count
    return .bool m value
  | .read m source => do
    let m ← m.count
    let source ← source.count
    return .read m source
  | .negate m operand => do
    let m ← m.count
    let operand ← operand.count
    return .negate m operand
  | .binary m op left right => do
    let m ← m.count
    let left ← left.count
    let right ← right.count
    return .binary m op left right

end

mutual

/-- Numbers the nodes of a statement from the counter. -/
def Stmt.count : Stmt → Counter Stmt
  | .empty m => do
    let m ← m.count
    return .empty m
  | .block m body => do
    let m ← m.count
    let body ← countStmts body
    return .block m body
  | .assign m target value => do
    let m ← m.count
    let target ← target.count
    let value ← value.count
    return .assign m target value
  | .ifThen m test thenPart => do
    let m ← m.count
    let test ← test.count
    let thenPart ← thenPart.count
    return .ifThen m test thenPart
  | .ifThenElse m test thenPart elsePart => do
    let m ← m.count
    let test ← test.count
    let thenPart ← thenPart.count
    let elsePart ← elsePart.count
    return .ifThenElse m test thenPart elsePart
  | .loop m test body => do
    let m ← m.count
    let test ← test.count
    let body ← body.count
    return .loop m test body
  | .call m callee arguments => do
    let m ← m.count
    let arguments ← arguments.mapM Expr.count
    return .call m callee arguments

/-- Numbers the nodes of a list of statements from the counter. -/
def countStmts : List Stmt → Counter (List Stmt)
  | [] => return []
  | s :: rest => do
    let s ← s.count
    let rest ← countStmts rest
    return s :: rest

end

/-- Numbers a parameter and its type from the counter. -/
def Parameter.count (q : Parameter) : Counter Parameter := do
  let mark ← q.mark.count
  let type ← q.type.count
  return { q with mark, type }

/-- Numbers a local variable and its type from the counter. -/
def LocalVar.count (v : LocalVar) : Counter LocalVar := do
  let mark ← v.mark.count
  let type ← v.type.count
  return { v with mark, type }

/-- Numbers a definition from the counter: its mark, then its parameters, its local variables and
its body. -/
def Definition.count : Definition → Counter Definition
  | .type d => do
    let mark ← d.mark.count
    let type ← d.type.count
    return .type { d with mark, type }
  | .procedure q => do
    let mark ← q.mark.count
    let parameters ← q.parameters.mapM Parameter.count
    let locals ← q.locals.mapM LocalVar.count
    let body ← countStmts q.body
    return .procedure { q with mark, parameters, locals, body }

/-- Numbers definitions one after the other from the counter. -/
def countDefinitions (definitions : List Definition) : Counter (List Definition) :=
  definitions.mapM Definition.count

/-! ### The counter stands where the part starts -/

/-- A step of the walk gives its result and moves the counter on by the size of its part, as long
as the counter lasts. -/
def Counts {α : Type} (step : Counter α) (result : Nat → α) (size : Nat) : Prop :=
  ∀ n, n + size < UInt32.size → step n = some (result n, n + size)

variable {α β : Type}

/-- A step that counts is followed by the next one, which starts where it ends. -/
lemma Counts.bind {step : Counter α} {result : Nat → α} {size : Nat} (h : Counts step result size)
    (next : α → Counter β) {n : Nat} (hn : n + size < UInt32.size) :
    (step >>= next) n = next (result n) (n + size) := by
  change (step n).bind (fun r => next r.1 r.2) = _
  rw [h n hn]
  rfl

/-- The walk of a part ends with its result where the counter has come to. -/
lemma counted_pure (x : α) {k n : Nat} (h : k = n) : (pure x : Counter α) k = some (x, n) := by
  rw [h]
  rfl

/-- A mark counts for one. -/
lemma Mark.counts (m : Mark) : Counts m.count m.withId 1 := fun _ hn => if_pos hn

/-- A list of parts that count is counted part by part. -/
lemma counts_mapM {count : α → Counter α} {number : Nat → α → α} {nodes : α → List Node}
    (h : ∀ x, Counts (count x) (fun n => number n x) (nodes x).length) (l : List α) :
    Counts (l.mapM count) (fun n => numberList (fun x => (nodes x).length) number n l)
      (l.flatMap nodes).length := by
  intro n hn
  induction l generalizing n with
  | nil => rfl
  | cons x rest ih =>
    have hrest : Counts (rest.mapM count)
        (fun n => numberList (fun x => (nodes x).length) number n rest)
        (rest.flatMap nodes).length := fun n hn => ih n hn
    simp only [List.flatMap_cons, List.length_append] at hn ⊢
    rw [List.mapM_cons, (h x).bind _ (by omega), hrest.bind _ (by omega)]
    exact counted_pure _ (by omega)

/-! ### Each construct counts its own nodes -/

/-- A type is counted along its walk. -/
lemma TypeExpr.counts (e : TypeExpr) : Counts e.count (fun n => e.number n) e.nodes.length := by
  intro n hn
  induction e generalizing n with
  | named m name => exact m.counts.bind _ hn
  | array m length base ih =>
    have hbase : Counts base.count (fun n => base.number n) base.nodes.length := fun n hn => ih n hn
    simp only [nodes, List.length_cons] at hn ⊢
    rw [count, m.counts.bind _ (by omega), hbase.bind _ (by omega)]
    exact counted_pure _ (by omega)

mutual

/-- A variable is counted along its walk. -/
lemma Variable.counts (v : Variable) : Counts v.count (fun n => v.number n) v.nodes.length := by
  intro n hn
  match v with
  | .named m name => exact m.counts.bind _ hn
  | .element m array index =>
    simp only [Variable.nodes, List.length_cons, List.length_append] at hn ⊢
    rw [Variable.count, m.counts.bind _ (by omega), (Variable.counts array).bind _ (by omega),
      (Expr.counts index).bind _ (by omega)]
    exact counted_pure _ (by omega)

/-- An expression is counted along its walk. -/
lemma Expr.counts (e : Expr) : Counts e.count (fun n => e.number n) e.nodes.length := by
  intro n hn
  match e with
  | .int m value => exact m.counts.bind _ hn
  | .bool m value => exact m.counts.bind _ hn
  | .read m source =>
    simp only [Expr.nodes, List.length_cons] at hn ⊢
    rw [Expr.count, m.counts.bind _ (by omega), (Variable.counts source).bind _ (by omega)]
    exact counted_pure _ (by omega)
  | .negate m operand =>
    simp only [Expr.nodes, List.length_cons] at hn ⊢
    rw [Expr.count, m.counts.bind _ (by omega), (Expr.counts operand).bind _ (by omega)]
    exact counted_pure _ (by omega)
  | .binary m op left right =>
    simp only [Expr.nodes, List.length_cons, List.length_append] at hn ⊢
    rw [Expr.count, m.counts.bind _ (by omega), (Expr.counts left).bind _ (by omega),
      (Expr.counts right).bind _ (by omega)]
    exact counted_pure _ (by omega)

end

mutual

/-- A statement is counted along its walk. -/
lemma Stmt.counts (s : Stmt) : Counts s.count (fun n => s.number n) s.nodes.length := by
  intro n hn
  match s with
  | .empty m => exact m.counts.bind _ hn
  | .block m body =>
    simp only [Stmt.nodes, List.length_cons] at hn ⊢
    rw [Stmt.count, m.counts.bind _ (by omega), (counts_countStmts body).bind _ (by omega)]
    exact counted_pure _ (by omega)
  | .assign m target value =>
    simp only [Stmt.nodes, List.length_cons, List.length_append] at hn ⊢
    rw [Stmt.count, m.counts.bind _ (by omega), target.counts.bind _ (by omega),
      value.counts.bind _ (by omega)]
    exact counted_pure _ (by omega)
  | .ifThen m test thenPart =>
    simp only [Stmt.nodes, List.length_cons, List.length_append] at hn ⊢
    rw [Stmt.count, m.counts.bind _ (by omega), test.counts.bind _ (by omega),
      (Stmt.counts thenPart).bind _ (by omega)]
    exact counted_pure _ (by omega)
  | .ifThenElse m test thenPart elsePart =>
    simp only [Stmt.nodes, List.length_cons, List.length_append] at hn ⊢
    rw [Stmt.count, m.counts.bind _ (by omega), test.counts.bind _ (by omega),
      (Stmt.counts thenPart).bind _ (by omega), (Stmt.counts elsePart).bind _ (by omega)]
    exact counted_pure _ (by omega)
  | .loop m test body =>
    simp only [Stmt.nodes, List.length_cons, List.length_append] at hn ⊢
    rw [Stmt.count, m.counts.bind _ (by omega), test.counts.bind _ (by omega),
      (Stmt.counts body).bind _ (by omega)]
    exact counted_pure _ (by omega)
  | .call m callee arguments =>
    simp only [Stmt.nodes, List.length_cons] at hn ⊢
    rw [Stmt.count, m.counts.bind _ (by omega),
      (counts_mapM Expr.counts arguments).bind _ (by omega)]
    exact counted_pure _ (by omega)

/-- A list of statements is counted along its walk. -/
lemma counts_countStmts (l : List Stmt) :
    Counts (countStmts l) (fun n => numberStmts n l) (nodesOf l).length := by
  intro n hn
  match l with
  | [] => rfl
  | s :: rest =>
    simp only [nodesOf, List.length_append] at hn ⊢
    rw [countStmts, (Stmt.counts s).bind _ (by omega), (counts_countStmts rest).bind _ (by omega)]
    exact counted_pure _ (by omega)

end

/-- A parameter is counted along its walk. -/
lemma Parameter.counts (q : Parameter) : Counts q.count (fun n => q.number n) q.nodes.length := by
  intro n hn
  simp only [nodes, List.length_cons] at hn ⊢
  rw [count, q.mark.counts.bind _ (by omega), q.type.counts.bind _ (by omega)]
  exact counted_pure _ (by omega)

/-- A local variable is counted along its walk. -/
lemma LocalVar.counts (v : LocalVar) : Counts v.count (fun n => v.number n) v.nodes.length := by
  intro n hn
  simp only [nodes, List.length_cons] at hn ⊢
  rw [count, v.mark.counts.bind _ (by omega), v.type.counts.bind _ (by omega)]
  exact counted_pure _ (by omega)

/-- A definition is counted along its walk. -/
lemma Definition.counts (d : Definition) : Counts d.count (fun n => d.number n) d.nodes.length := by
  intro n hn
  cases d with
  | type d =>
    simp only [nodes, List.length_cons] at hn ⊢
    rw [count, d.mark.counts.bind _ (by omega), d.type.counts.bind _ (by omega)]
    exact counted_pure _ (by omega)
  | procedure q =>
    simp only [nodes, Procedure.nodes, List.length_cons, List.length_append] at hn ⊢
    rw [count, q.mark.counts.bind _ (by omega),
      (counts_mapM Parameter.counts q.parameters).bind _ (by omega),
      (counts_mapM LocalVar.counts q.locals).bind _ (by omega),
      (counts_countStmts q.body).bind _ (by omega)]
    exact counted_pure _ (by omega)

/-- With fewer than `2 ^ 32` nodes, the counter gives the numbers of the program and has gone
through all of them. -/
lemma countDefinitions_eq_some {definitions : List Definition}
    (h : (definitions.flatMap Definition.nodes).length < UInt32.size) :
    countDefinitions definitions 0 = some
      ((Program.ofDefinitions definitions).definitions,
        (definitions.flatMap Definition.nodes).length) := by
  have hcounts := counts_mapM Definition.counts definitions 0 (by rwa [Nat.zero_add])
  rwa [Nat.zero_add] at hcounts

end TreeCompiler
