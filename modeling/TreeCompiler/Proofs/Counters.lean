import Mathlib.Algebra.Order.BigOperators.Group.List
import TreeCompiler.Proofs.Emission.Code
import TreeCompiler.Proofs.Types.Nominal

/-!
# What counts nodes, types and labels

The numbers of nodes, the handles of types and the labels of code are natural numbers, which never
wrap around.  Words of 32 bits would count the same as long as a program has fewer than `2 ^ 32`
nodes: the code takes fewer labels than there are nodes (`Program.labels_le`), and every array type
comes from a node of its own, inside of another one (`Program.length_arrayNodes_le`).  So neither the
handles nor the labels of such a program reach the end of the words (`Program.counters_fit`); for the
numbers of its nodes this is a part of `Numbered`.
-/

namespace TreeCompiler

/-! ### Labels -/

mutual

/-- The code of a variable takes fewer labels than the variable has nodes. -/
lemma Variable.labels_lt (v : Variable) : v.labels < v.nodes.length := by
  cases v with
  | named => simp [Variable.labels, Variable.nodes]
  | element _ array index =>
    have harray := array.labels_lt
    have hindex := index.labels_lt
    simp only [Variable.labels, Variable.nodes, List.length_cons, List.length_append]
    omega

/-- The code of an expression takes fewer labels than the expression has nodes. -/
lemma Expr.labels_lt (e : Expr) : e.labels < e.nodes.length := by
  cases e with
  | int | bool => simp [Expr.labels, Expr.nodes]
  | read _ source =>
    have hsource := source.labels_lt
    simp only [Expr.labels, Expr.nodes, List.length_cons]
    omega
  | negate _ operand =>
    have hoperand := operand.labels_lt
    simp only [Expr.labels, Expr.nodes, List.length_cons]
    omega
  | binary _ op left right =>
    have hleft := left.labels_lt
    have hright := right.labels_lt
    have hop : (if op.isComparison then 2 else 0) ≤ 2 := by
      split <;> omega
    simp only [Expr.labels, Expr.nodes, List.length_cons, List.length_append]
    omega

end

/-- The code of a condition takes fewer labels than the condition has nodes, since it takes no more
than the code for its value does. -/
lemma Expr.conditionLabels_lt (e : Expr) : e.conditionLabels < e.nodes.length := by
  refine lt_of_le_of_lt ?_ e.labels_lt
  cases e with
  | int | bool | read | negate => exact le_rfl
  | binary _ op left right =>
    rw [conditionLabels]
    split
    · exact Nat.le_add_right _ _
    · exact le_rfl

/-- The code of arguments takes no more labels than the arguments have nodes. -/
lemma argumentsLabels_le (arguments : List Expr) :
    argumentsLabels arguments ≤ (arguments.flatMap Expr.nodes).length := by
  rw [List.length_flatMap]
  exact List.sum_le_sum fun e _ => e.labels_lt.le

mutual

/-- The code of a statement takes fewer labels than the statement has nodes.  The labels of a
condition are fewer than its nodes, which leaves room for those of the statement. -/
lemma Stmt.labels_lt (s : Stmt) : s.labels < s.nodes.length := by
  cases s with
  | empty => simp [Stmt.labels, Stmt.nodes]
  | block _ body =>
    have hbody := labelsOf_le body
    simp only [Stmt.labels, Stmt.nodes, List.length_cons]
    omega
  | assign _ target value =>
    have htarget := target.labels_lt
    have hvalue := value.labels_lt
    simp only [Stmt.labels, Stmt.nodes, List.length_cons, List.length_append]
    omega
  | ifThen _ test thenPart =>
    have htest := test.conditionLabels_lt
    have hthen := thenPart.labels_lt
    simp only [Stmt.labels, Stmt.nodes, List.length_cons, List.length_append]
    omega
  | ifThenElse _ test thenPart elsePart =>
    have htest := test.conditionLabels_lt
    have hthen := thenPart.labels_lt
    have helse := elsePart.labels_lt
    simp only [Stmt.labels, Stmt.nodes, List.length_cons, List.length_append]
    omega
  | loop _ test body =>
    have htest := test.conditionLabels_lt
    have hbody := body.labels_lt
    simp only [Stmt.labels, Stmt.nodes, List.length_cons, List.length_append]
    omega
  | call _ _ arguments =>
    have harguments := argumentsLabels_le arguments
    simp only [Stmt.labels, Stmt.nodes, List.length_cons]
    omega

/-- The code of a list of statements takes no more labels than the statements have nodes. -/
lemma labelsOf_le (body : List Stmt) : labelsOf body ≤ (nodesOf body).length := by
  cases body with
  | nil => exact le_rfl
  | cons s rest =>
    have hs := s.labels_lt
    have hrest := labelsOf_le rest
    simp only [labelsOf, nodesOf, List.length_append]
    omega

end

/-- The body of a procedure takes no more labels than the procedure has nodes. -/
lemma Procedure.labelsOf_body_le (q : Procedure) : labelsOf q.body ≤ q.nodes.length := by
  have hbody := labelsOf_le q.body
  simp only [nodes, List.length_cons, List.length_append]
  omega

/-- The code of a program takes no more labels than the program has nodes. -/
lemma Program.labels_le (p : Program) : p.labels ≤ p.nodes.length := by
  obtain ⟨definitions⟩ := p
  induction definitions with
  | nil => exact le_rfl
  | cons d rest ih =>
    have hnodes : (Program.mk (d :: rest)).nodes.length =
        d.nodes.length + (Program.mk rest).nodes.length := List.length_append
    rw [hnodes]
    cases d with
    | type d => exact ih.trans (Nat.le_add_left _ _)
    | procedure q => exact Nat.add_le_add q.labelsOf_body_le ih

/-! ### Types -/

/-- A written type has a node for each of its arrays, and one for the name that it is built on. -/
lemma TypeExpr.length_nodes (e : TypeExpr) (site : Site) :
    e.nodes.length = (e.arrays site).length + 1 := by
  induction e with
  | named => rfl
  | array mark length base ih =>
    rw [nodes, arrays, List.length_cons, List.length_append, ih]
    rfl

/-- The types of a procedure's variables are inside the nodes of the variables. -/
lemma Procedure.sum_decls_le (q : Procedure) :
    (q.decls.map fun d => d.type.nodes.length + 1).sum ≤ q.nodes.length := by
  have hparameters : ((q.parameters.map Parameter.decl).map fun d => d.type.nodes.length + 1).sum =
      (q.parameters.flatMap Parameter.nodes).length := by
    rw [List.length_flatMap, List.map_map]
    rfl
  have hlocals : ((q.locals.map LocalVar.decl).map fun d => d.type.nodes.length + 1).sum =
      (q.locals.flatMap LocalVar.nodes).length := by
    rw [List.length_flatMap, List.map_map]
    rfl
  rw [decls, List.map_append, List.sum_append, hparameters, hlocals]
  simp only [nodes, List.length_cons, List.length_append]
  omega

namespace Program

/-- The types of a program are inside the nodes of its type definitions and variables. -/
lemma sum_writtenTypes_le (p : Program) :
    (p.writtenTypes.map fun x => x.2.nodes.length + 1).sum ≤ p.nodes.length := by
  obtain ⟨definitions⟩ := p
  induction definitions with
  | nil => exact le_rfl
  | cons d rest ih =>
    have hnodes : (Program.mk (d :: rest)).nodes.length =
        d.nodes.length + (Program.mk rest).nodes.length := List.length_append
    rw [writtenTypes, List.map_append, List.sum_append] at ih ⊢
    rw [hnodes]
    cases d with
    | type d =>
      have hd : (Definition.type d).nodes.length = d.type.nodes.length + 1 := rfl
      have htypes : (Program.mk (.type d :: rest)).typeDefs = d :: (Program.mk rest).typeDefs := rfl
      have hprocedures : (Program.mk (.type d :: rest)).procedures = (Program.mk rest).procedures :=
        rfl
      rw [htypes, hprocedures, List.map_cons, List.map_cons, List.sum_cons, hd]
      dsimp only
      omega
    | procedure q =>
      have htypes : (Program.mk (.procedure q :: rest)).typeDefs = (Program.mk rest).typeDefs := rfl
      have hprocedures : (Program.mk (.procedure q :: rest)).procedures =
          q :: (Program.mk rest).procedures := rfl
      have hdecls : ((q.decls.map fun d => (Site.variable q.name d.name, d.type)).map
          fun x => x.2.nodes.length + 1).sum ≤ (Definition.procedure q).nodes.length := by
        rw [List.map_map]
        exact q.sum_decls_le
      rw [htypes, hprocedures, List.flatMap_cons, List.map_append, List.sum_append]
      omega

/-- A program has at least two nodes more than arrays, if it has any. -/
lemma length_arrayNodes_le {p : Program} (h : p.arrayNodes ≠ []) :
    p.arrayNodes.length + 2 ≤ p.nodes.length := by
  have hne : p.writtenTypes ≠ [] := by
    intro hnil
    rw [arrayNodes, hnil] at h
    exact h rfl
  obtain ⟨x, rest, hwritten⟩ := List.exists_cons_of_ne_nil hne
  have hx := x.2.length_nodes x.1
  have hrest : (rest.map fun x => (x.2.arrays x.1).length).sum ≤
      (rest.map fun x => x.2.nodes.length + 1).sum := by
    refine List.sum_le_sum fun y _ => ?_
    rw [y.2.length_nodes y.1]
    omega
  have hsum := p.sum_writtenTypes_le
  rw [hwritten, List.map_cons, List.sum_cons] at hsum
  rw [arrayNodes, List.length_flatMap, hwritten, List.map_cons, List.sum_cons]
  omega

/-- In a program with fewer than `2 ^ 32` nodes, the types that are declared and the labels that are
taken are fewer than `2 ^ 32` as well. -/
theorem counters_fit (p : Program) (declared : Tables)
    (hdeclared : p.declare.runOn .predefined = (.ok (), declared))
    (h : p.nodes.length < UInt32.size) :
    declared.types.size < UInt32.size ∧ p.labels < UInt32.size := by
  refine ⟨?_, p.labels_le.trans_lt h⟩
  obtain ⟨g, hg⟩ := exists_declaredWith hdeclared
  rw [hg.size_eq]
  by_cases harrays : p.arrayNodes = []
  · rw [harrays]
    decide
  · have hle := length_arrayNodes_le harrays
    unfold TypeTable.primitives
    omega

end Program

end TreeCompiler
