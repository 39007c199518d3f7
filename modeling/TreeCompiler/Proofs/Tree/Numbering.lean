import Mathlib.Tactic.Lemma
import TreeCompiler.Tree.Numbering

/-!
# The numbers of a tree

The numbers that a list of definitions is given are `0, 1, 2, …` along the pre-order walk.  Every
`number` is shown to number its part of the walk from its argument on; since the parts of a walk
follow each other, so do their intervals, and no number is given twice.
-/

namespace TreeCompiler

/-- The numbers of nodes, in order. -/
def idsOf (nodes : List Node) : List Nat := nodes.map fun n => n.mark.id

@[simp] lemma idsOf_nil : idsOf [] = [] := rfl

@[simp] lemma idsOf_cons (n : Node) (l : List Node) : idsOf (n :: l) = n.mark.id :: idsOf l := rfl

@[simp] lemma idsOf_append (l l' : List Node) : idsOf (l ++ l') = idsOf l ++ idsOf l' :=
  List.map_append

@[simp] lemma Mark.id_withId (m : Mark) (n : Nat) : (m.withId n).id = n := rfl

/-- If elements are numbered along their walks, then so is a list of them. -/
lemma idsOf_numberList {α : Type} (nodes : α → List Node) {number : Nat → α → α}
    (h : ∀ n x, idsOf (nodes (number n x)) = List.range' n (nodes x).length) (l : List α) (n : Nat) :
    idsOf ((numberList (fun x => (nodes x).length) number n l).flatMap nodes) =
      List.range' n (l.flatMap nodes).length := by
  induction l generalizing n with
  | nil => rfl
  | cons x rest ih =>
    rw [numberList, List.flatMap_cons, List.flatMap_cons, idsOf_append, h, ih, List.length_append,
      List.range'_append_1]

/-- An interval after a root. -/
private lemma cons_range' (n k : Nat) : n :: List.range' (n + 1) k = List.range' n (k + 1) := by
  rw [← List.range'_succ]

/-! ### Types, variables and expressions -/

/-- A type is numbered along its walk. -/
lemma TypeExpr.idsOf_number (e : TypeExpr) (n : Nat) :
    idsOf (e.number n).nodes = List.range' n e.nodes.length := by
  induction e generalizing n with
  | named m name => rfl
  | array m length base ih =>
    rw [TypeExpr.number, TypeExpr.nodes, TypeExpr.nodes, idsOf_cons, ih, List.length_cons]
    exact cons_range' n base.nodes.length

mutual

/-- A variable is numbered along its walk. -/
lemma Variable.idsOf_number (v : Variable) (n : Nat) :
    idsOf (v.number n).nodes = List.range' n v.nodes.length := by
  match v with
  | .named m name => rfl
  | .element m array index =>
    simp only [Variable.number, Variable.nodes, idsOf_cons, idsOf_append, List.length_cons,
      List.length_append, Variable.idsOf_number array, Expr.idsOf_number index,
      List.range'_append_1]
    exact cons_range' n _

/-- An expression is numbered along its walk. -/
lemma Expr.idsOf_number (e : Expr) (n : Nat) :
    idsOf (e.number n).nodes = List.range' n e.nodes.length := by
  match e with
  | .int m value => rfl
  | .bool m value => rfl
  | .read m source =>
    simp only [Expr.number, Expr.nodes, idsOf_cons, List.length_cons, Variable.idsOf_number source]
    exact cons_range' n source.nodes.length
  | .negate m operand =>
    simp only [Expr.number, Expr.nodes, idsOf_cons, List.length_cons, Expr.idsOf_number operand]
    exact cons_range' n operand.nodes.length
  | .binary m op left right =>
    simp only [Expr.number, Expr.nodes, idsOf_cons, idsOf_append, List.length_cons,
      List.length_append, Expr.idsOf_number left, Expr.idsOf_number right,
      List.range'_append_1]
    exact cons_range' n _

end

/-! ### Statements -/

mutual

/-- A statement is numbered along its walk. -/
lemma Stmt.idsOf_number (s : Stmt) (n : Nat) :
    idsOf (s.number n).nodes = List.range' n s.nodes.length := by
  match s with
  | .empty m => rfl
  | .block m body =>
    simp only [Stmt.number, Stmt.nodes, idsOf_cons, List.length_cons, idsOf_numberStmts body]
    exact cons_range' n (nodesOf body).length
  | .assign m target value =>
    simp only [Stmt.number, Stmt.nodes, idsOf_cons, idsOf_append, List.length_cons,
      List.length_append, Variable.idsOf_number target, Expr.idsOf_number value,
      List.range'_append_1]
    exact cons_range' n _
  | .ifThen m test thenPart =>
    simp only [Stmt.number, Stmt.nodes, idsOf_cons, idsOf_append, List.length_cons,
      List.length_append, Expr.idsOf_number test, Stmt.idsOf_number thenPart,
      List.range'_append_1]
    exact cons_range' n _
  | .ifThenElse m test thenPart elsePart =>
    simp only [Stmt.number, Stmt.nodes, idsOf_cons, idsOf_append, List.length_cons,
      List.length_append, Expr.idsOf_number test, Stmt.idsOf_number thenPart,
      Stmt.idsOf_number elsePart, List.range'_append_1]
    exact cons_range' n _
  | .loop m test body =>
    simp only [Stmt.number, Stmt.nodes, idsOf_cons, idsOf_append, List.length_cons,
      List.length_append, Expr.idsOf_number test, Stmt.idsOf_number body,
      List.range'_append_1]
    exact cons_range' n _
  | .call m callee arguments =>
    have harguments := idsOf_numberList Expr.nodes
      (fun n e => Expr.idsOf_number e n) arguments (n + 1)
    simp only [Stmt.number, Stmt.nodes, idsOf_cons, List.length_cons, harguments]
    exact cons_range' n (arguments.flatMap Expr.nodes).length

/-- A list of statements is numbered along its walk. -/
lemma idsOf_numberStmts (l : List Stmt) (n : Nat) :
    idsOf (nodesOf (numberStmts n l)) = List.range' n (nodesOf l).length := by
  match l with
  | [] => rfl
  | s :: rest =>
    simp only [numberStmts, nodesOf, idsOf_append, List.length_append, Stmt.idsOf_number s,
      idsOf_numberStmts rest, List.range'_append_1]

end

/-! ### Definitions and programs -/

/-- A parameter is numbered along its walk. -/
lemma Parameter.idsOf_number (p : Parameter) (n : Nat) :
    idsOf (p.number n).nodes = List.range' n p.nodes.length := by
  simp only [Parameter.number, Parameter.nodes, idsOf_cons, List.length_cons,
    TypeExpr.idsOf_number p.type]
  exact cons_range' n p.type.nodes.length

/-- A local variable is numbered along its walk. -/
lemma LocalVar.idsOf_number (v : LocalVar) (n : Nat) :
    idsOf (v.number n).nodes = List.range' n v.nodes.length := by
  simp only [LocalVar.number, LocalVar.nodes, idsOf_cons, List.length_cons,
    TypeExpr.idsOf_number v.type]
  exact cons_range' n v.type.nodes.length

/-- A procedure is numbered along its walk. -/
lemma Procedure.idsOf_number (p : Procedure) (n : Nat) :
    idsOf (p.number n).nodes = List.range' n p.nodes.length := by
  have hparameters := idsOf_numberList Parameter.nodes
    (fun n q => Parameter.idsOf_number q n) p.parameters (n + 1)
  have hlocals := idsOf_numberList LocalVar.nodes
    (fun n v => LocalVar.idsOf_number v n) p.locals
    (n + 1 + (p.parameters.flatMap Parameter.nodes).length)
  simp only [Procedure.number, Procedure.nodes, idsOf_cons, idsOf_append, List.length_cons,
    List.length_append, hparameters, hlocals, idsOf_numberStmts p.body, List.range'_append_1]
  exact cons_range' n _

/-- A definition is numbered along its walk. -/
lemma Definition.idsOf_number (d : Definition) (n : Nat) :
    idsOf (d.number n).nodes = List.range' n d.nodes.length := by
  cases d with
  | type d =>
    simp only [Definition.number, Definition.nodes, idsOf_cons, List.length_cons,
      TypeExpr.idsOf_number d.type]
    exact cons_range' n d.type.nodes.length
  | procedure p => exact Procedure.idsOf_number p n

/-- The nodes of a program are numbered from 0 on, in the order of the walk. -/
theorem Program.idsOf_ofDefinitions (definitions : List Definition) :
    idsOf (Program.ofDefinitions definitions).nodes =
      List.range (definitions.flatMap Definition.nodes).length := by
  rw [List.range_eq_range']
  exact idsOf_numberList Definition.nodes (fun n d => Definition.idsOf_number d n) definitions 0

/-- No two nodes of a program have the same number. -/
theorem Program.nodup_idsOf_ofDefinitions (definitions : List Definition) :
    (idsOf (Program.ofDefinitions definitions).nodes).Nodup := by
  rw [Program.idsOf_ofDefinitions]
  exact List.nodup_range

/-- The nodes of the bodies of a program are among its nodes, in the same order. -/
lemma Program.bodies_sublist (p : Program) :
    (p.procedures.flatMap fun q => nodesOf q.body).Sublist p.nodes := by
  unfold Program.procedures Program.nodes
  induction p.definitions with
  | nil => exact List.Sublist.refl _
  | cons d rest ih =>
    cases d with
    | type d => exact ih.trans (List.sublist_append_right _ _)
    | procedure q =>
      refine List.Sublist.append ?_ ih
      have hbody : (nodesOf q.body).Sublist
          (q.parameters.flatMap Parameter.nodes ++
            (q.locals.flatMap LocalVar.nodes ++ nodesOf q.body)) :=
        (List.sublist_append_right _ _).trans (List.sublist_append_right _ _)
      exact hbody.cons _

end TreeCompiler
