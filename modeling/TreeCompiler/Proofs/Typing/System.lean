import Mathlib.Data.List.Forall2
import TreeCompiler.Tree.Numbering
import TreeCompiler.Typing

/-!
# The type system

The typing rules as relations.  A name has the type of the variable that it is looked up as, and
types are compared as handles, so that every variable and every expression has at most one type
(`Variable.HasType.unique`, `Expr.HasType.unique`).  The rules mention no annotations and no order
of checks; that the checker decides them is shown in `TreeCompiler.Proofs.Typing.Checker`.
-/

namespace TreeCompiler

section
variable (tables : Tables) (scope : ScopeId)

/-! ### The rules -/

mutual

/-- The types of variables: that of the declaration, or that of an array's elements. -/
inductive Variable.HasType : Variable → TypeId → Prop
  | named {mark : Mark} {name : String} {slot : Slot} :
      tables.lookup scope name = some (.var slot) →
      Variable.HasType (.named mark name) slot.type
  | element {mark : Mark} {array : Variable} {index : Expr} {type : TypeId} {info : ArrayType} :
      Variable.HasType array type → tables.types.array? type = some info →
      Expr.HasType index .int → Variable.HasType (.element mark array index) info.base

/-- The types of expressions: operators take integers, comparisons give truth values. -/
inductive Expr.HasType : Expr → TypeId → Prop
  | int {mark : Mark} {value : Int32} : Expr.HasType (.int mark value) .int
  | bool {mark : Mark} {value : Bool} : Expr.HasType (.bool mark value) .bool
  | read {mark : Mark} {source : Variable} {type : TypeId} :
      Variable.HasType source type → Expr.HasType (.read mark source) type
  | negate {mark : Mark} {operand : Expr} :
      Expr.HasType operand .int → Expr.HasType (.negate mark operand) .int
  | arithmetic {mark : Mark} {op : BinaryOp} {left right : Expr} :
      op.isComparison = false → Expr.HasType left .int → Expr.HasType right .int →
      Expr.HasType (.binary mark op left right) .int
  | comparison {mark : Mark} {op : BinaryOp} {left right : Expr} :
      op.isComparison = true → Expr.HasType left .int → Expr.HasType right .int →
      Expr.HasType (.binary mark op left right) .bool

end

/-- An argument fits a parameter: it has the parameter's type, and it is a plain variable if the
parameter is a reference. -/
def Slot.Accepts (parameter : Slot) (argument : Expr) : Prop :=
  argument.HasType tables scope parameter.type ∧
    (parameter.isReference = true → argument.variable?.isSome = true)

/-- The statements that obey the rules. -/
inductive Stmt.WellTyped : Stmt → Prop
  | empty {mark : Mark} : Stmt.WellTyped (.empty mark)
  | block {mark : Mark} {body : List Stmt} :
      (∀ s ∈ body, Stmt.WellTyped s) → Stmt.WellTyped (.block mark body)
  | assign {mark : Mark} {target : Variable} {value : Expr} :
      target.HasType tables scope .int → value.HasType tables scope .int →
      Stmt.WellTyped (.assign mark target value)
  | ifThen {mark : Mark} {test : Expr} {thenPart : Stmt} :
      test.HasType tables scope .bool → Stmt.WellTyped thenPart →
      Stmt.WellTyped (.ifThen mark test thenPart)
  | ifThenElse {mark : Mark} {test : Expr} {thenPart elsePart : Stmt} :
      test.HasType tables scope .bool → Stmt.WellTyped thenPart → Stmt.WellTyped elsePart →
      Stmt.WellTyped (.ifThenElse mark test thenPart elsePart)
  | loop {mark : Mark} {test : Expr} {body : Stmt} :
      test.HasType tables scope .bool → Stmt.WellTyped body →
      Stmt.WellTyped (.loop mark test body)
  | call {mark : Mark} {callee : String} {arguments : List Expr} {entry : ProcedureEntry} :
      tables.lookup scope callee = some (.procedure entry) →
      List.Forall₂ (Slot.Accepts tables scope) entry.parameters arguments →
      Stmt.WellTyped (.call mark callee arguments)

end

/-- The global name of the main procedure is a procedure without parameters. -/
def Tables.HasMain (tables : Tables) : Prop :=
  ∃ entry, tables.procedure? mainName = some entry ∧ entry.parameters = []

/-- The body of a procedure obeys the rules in the procedure's scope. -/
def Procedure.WellTyped (tables : Tables) (p : Procedure) : Prop :=
  ∃ entry, tables.procedure? p.name = some entry ∧
    ∀ s ∈ p.body, s.WellTyped tables entry.scope

/-! ### Uniqueness -/

section
variable {tables : Tables} {scope : ScopeId}

mutual

/-- A variable has at most one type. -/
lemma Variable.HasType.unique {v : Variable} {s t : TypeId} (hs : v.HasType tables scope s)
    (ht : v.HasType tables scope t) : s = t := by
  match v, hs, ht with
  | .named _ _, .named hs, .named ht =>
    rw [hs] at ht
    cases ht
    rfl
  | .element _ _ _, .element hs has _, .element ht hat _ =>
    have htype := hs.unique ht
    subst htype
    rw [has] at hat
    cases hat
    rfl

/-- An expression has at most one type. -/
lemma Expr.HasType.unique {e : Expr} {s t : TypeId} (hs : e.HasType tables scope s)
    (ht : e.HasType tables scope t) : s = t := by
  match e, hs, ht with
  | .int _ _, .int, .int => rfl
  | .bool _ _, .bool, .bool => rfl
  | .read _ _, .read hs, .read ht => exact hs.unique ht
  | .negate _ _, .negate _, .negate _ => rfl
  | .binary _ _ _ _, .arithmetic _ _ _, .arithmetic _ _ _ => rfl
  | .binary _ _ _ _, .comparison _ _ _, .comparison _ _ _ => rfl
  | .binary _ _ _ _, .arithmetic hs _ _, .comparison ht _ _ => simp [hs] at ht
  | .binary _ _ _ _, .comparison hs _ _, .arithmetic ht _ _ => simp [hs] at ht

end

end

/-! ### The nodes that have types -/

/-- A node that has a type: a variable or an expression. -/
inductive TypedNode where
  | place (v : Variable)
  | expr (e : Expr)

namespace TypedNode

/-- The node of the walk. -/
def node : TypedNode → Node
  | place v => ⟨.place, v.mark⟩
  | expr e => ⟨.expr, e.mark⟩

/-- The number of the node. -/
def id (x : TypedNode) : Nat := x.node.mark.id

/-- The typing rules give the node a type. -/
def HasType (tables : Tables) (scope : ScopeId) : TypedNode → TypeId → Prop
  | place v => v.HasType tables scope
  | expr e => e.HasType tables scope

/-- A node has at most one type. -/
lemma HasType.unique {tables : Tables} {scope : ScopeId} {x : TypedNode} {s t : TypeId}
    (hs : x.HasType tables scope s) (ht : x.HasType tables scope t) : s = t := by
  cases x with
  | place v => exact Variable.HasType.unique hs ht
  | expr e => exact Expr.HasType.unique hs ht

end TypedNode

mutual

/-- The variables and expressions of a variable, in pre-order. -/
def Variable.typedNodes : Variable → List TypedNode
  | .named m name => [.place (.named m name)]
  | .element m array index =>
    .place (.element m array index) :: (array.typedNodes ++ index.typedNodes)

/-- The variables and expressions of an expression, in pre-order. -/
def Expr.typedNodes : Expr → List TypedNode
  | .int m value => [.expr (.int m value)]
  | .bool m value => [.expr (.bool m value)]
  | .read m source => .expr (.read m source) :: source.typedNodes
  | .negate m operand => .expr (.negate m operand) :: operand.typedNodes
  | .binary m op left right =>
    .expr (.binary m op left right) :: (left.typedNodes ++ right.typedNodes)

end

mutual

/-- The variables and expressions of a statement, in pre-order. -/
def Stmt.typedNodes : Stmt → List TypedNode
  | .empty _ => []
  | .block _ body => typedNodesOf body
  | .assign _ target value => target.typedNodes ++ value.typedNodes
  | .ifThen _ test thenPart => test.typedNodes ++ thenPart.typedNodes
  | .ifThenElse _ test thenPart elsePart =>
    test.typedNodes ++ (thenPart.typedNodes ++ elsePart.typedNodes)
  | .loop _ test body => test.typedNodes ++ body.typedNodes
  | .call _ _ arguments => arguments.flatMap Expr.typedNodes

/-- The variables and expressions of a list of statements, in pre-order. -/
def typedNodesOf : List Stmt → List TypedNode
  | [] => []
  | s :: rest => s.typedNodes ++ typedNodesOf rest

end

mutual

/-- Every node of a variable has a type. -/
lemma Variable.map_node_typedNodes (v : Variable) : v.typedNodes.map TypedNode.node = v.nodes := by
  match v with
  | .named m name => rfl
  | .element m array index =>
    simp only [Variable.typedNodes, Variable.nodes, List.map_cons, List.map_append,
      Variable.map_node_typedNodes array, Expr.map_node_typedNodes index]
    rfl

/-- Every node of an expression has a type. -/
lemma Expr.map_node_typedNodes (e : Expr) : e.typedNodes.map TypedNode.node = e.nodes := by
  match e with
  | .int m value => rfl
  | .bool m value => rfl
  | .read m source =>
    simp only [Expr.typedNodes, Expr.nodes, List.map_cons, Variable.map_node_typedNodes source]
    rfl
  | .negate m operand =>
    simp only [Expr.typedNodes, Expr.nodes, List.map_cons, Expr.map_node_typedNodes operand]
    rfl
  | .binary m op left right =>
    simp only [Expr.typedNodes, Expr.nodes, List.map_cons, List.map_append,
      Expr.map_node_typedNodes left, Expr.map_node_typedNodes right]
    rfl

end

/-- Whether nodes of a kind have types. -/
def NodeKind.isTyped : NodeKind → Bool
  | .expr | .place => true
  | _ => false

/-- All the nodes of variables and expressions have types. -/
lemma TypedNode.isTyped_node (x : TypedNode) : x.node.kind.isTyped = true := by
  cases x <;> rfl

/-- Picking the typed nodes out of the nodes of typed nodes leaves them as they are. -/
private lemma filter_map_node (l : List TypedNode) :
    (l.map TypedNode.node).filter (fun n => n.kind.isTyped) = l.map TypedNode.node := by
  rw [List.filter_eq_self]
  intro n hn
  obtain ⟨x, -, rfl⟩ := List.mem_map.mp hn
  exact x.isTyped_node

/-- The typed nodes among the nodes of variables. -/
private lemma Variable.filter_nodes (v : Variable) :
    v.nodes.filter (fun n => n.kind.isTyped) = v.typedNodes.map TypedNode.node := by
  rw [← v.map_node_typedNodes, filter_map_node]

/-- The typed nodes among the nodes of expressions. -/
private lemma Expr.filter_nodes (e : Expr) :
    e.nodes.filter (fun n => n.kind.isTyped) = e.typedNodes.map TypedNode.node := by
  rw [← e.map_node_typedNodes, filter_map_node]

/-- The typed nodes among the nodes of arguments. -/
private lemma filter_nodes_arguments (l : List Expr) :
    (l.flatMap Expr.nodes).filter (fun n => n.kind.isTyped) =
      (l.flatMap Expr.typedNodes).map TypedNode.node := by
  induction l with
  | nil => rfl
  | cons e rest ih =>
    rw [List.flatMap_cons, List.flatMap_cons, List.filter_append, List.map_append, ih,
      Expr.filter_nodes]

mutual

/-- The typed nodes of a statement are its nodes of typed kinds. -/
lemma Stmt.map_node_typedNodes (s : Stmt) :
    s.typedNodes.map TypedNode.node = s.nodes.filter fun n => n.kind.isTyped := by
  match s with
  | .empty m => rfl
  | .block m body =>
    simp only [Stmt.typedNodes, Stmt.nodes, map_node_typedNodesOf body]
    rfl
  | .assign m target value =>
    simp only [Stmt.typedNodes, Stmt.nodes, List.map_append, ← Variable.filter_nodes,
      ← Expr.filter_nodes, ← List.filter_append]
    rfl
  | .ifThen m test thenPart =>
    simp only [Stmt.typedNodes, Stmt.nodes, List.map_append, Stmt.map_node_typedNodes thenPart,
      ← Expr.filter_nodes, ← List.filter_append]
    rfl
  | .ifThenElse m test thenPart elsePart =>
    simp only [Stmt.typedNodes, Stmt.nodes, List.map_append, Stmt.map_node_typedNodes thenPart,
      Stmt.map_node_typedNodes elsePart, ← Expr.filter_nodes, ← List.filter_append]
    rfl
  | .loop m test body =>
    simp only [Stmt.typedNodes, Stmt.nodes, List.map_append, Stmt.map_node_typedNodes body,
      ← Expr.filter_nodes, ← List.filter_append]
    rfl
  | .call m callee arguments =>
    simp only [Stmt.typedNodes, Stmt.nodes, ← filter_nodes_arguments]
    rfl

/-- The typed nodes of a list of statements are its nodes of typed kinds. -/
lemma map_node_typedNodesOf (l : List Stmt) :
    (typedNodesOf l).map TypedNode.node = (nodesOf l).filter fun n => n.kind.isTyped := by
  match l with
  | [] => rfl
  | s :: rest =>
    simp only [typedNodesOf, nodesOf, List.map_append, List.filter_append,
      Stmt.map_node_typedNodes s, map_node_typedNodesOf rest]

end

/-! ### The nodes of a node -/

/-- The variables and expressions of a node that has a type. -/
def TypedNode.typedNodes : TypedNode → List TypedNode
  | place v => v.typedNodes
  | expr e => e.typedNodes

section
variable {x : TypedNode}

mutual

/-- The nodes of a node of a variable are nodes of the variable. -/
lemma Variable.typedNodes_subset {v : Variable} (h : x ∈ v.typedNodes) :
    x.typedNodes ⊆ v.typedNodes := by
  match v with
  | .named m name =>
    obtain rfl := List.mem_singleton.mp h
    exact List.Subset.refl _
  | .element m array index =>
    rcases List.mem_cons.mp h with rfl | h
    · exact List.Subset.refl _
    · rw [Variable.typedNodes]
      refine List.subset_cons_of_subset _ ?_
      rcases List.mem_append.mp h with h | h
      · exact List.subset_append_of_subset_left _ (Variable.typedNodes_subset h)
      · exact List.subset_append_of_subset_right _ (Expr.typedNodes_subset h)

/-- The nodes of a node of an expression are nodes of the expression. -/
lemma Expr.typedNodes_subset {e : Expr} (h : x ∈ e.typedNodes) : x.typedNodes ⊆ e.typedNodes := by
  match e with
  | .int m value =>
    obtain rfl := List.mem_singleton.mp h
    exact List.Subset.refl _
  | .bool m value =>
    obtain rfl := List.mem_singleton.mp h
    exact List.Subset.refl _
  | .read m source =>
    rcases List.mem_cons.mp h with rfl | h
    · exact List.Subset.refl _
    · exact List.subset_cons_of_subset _ (Variable.typedNodes_subset h)
  | .negate m operand =>
    rcases List.mem_cons.mp h with rfl | h
    · exact List.Subset.refl _
    · exact List.subset_cons_of_subset _ (Expr.typedNodes_subset h)
  | .binary m op left right =>
    rcases List.mem_cons.mp h with rfl | h
    · exact List.Subset.refl _
    · rw [Expr.typedNodes]
      refine List.subset_cons_of_subset _ ?_
      rcases List.mem_append.mp h with h | h
      · exact List.subset_append_of_subset_left _ (Expr.typedNodes_subset h)
      · exact List.subset_append_of_subset_right _ (Expr.typedNodes_subset h)

end

mutual

/-- The nodes of a node of a statement are nodes of the statement. -/
lemma Stmt.typedNodes_subset {s : Stmt} (h : x ∈ s.typedNodes) : x.typedNodes ⊆ s.typedNodes := by
  match s with
  | .empty m => cases h
  | .block m body => exact typedNodesOf_subset h
  | .assign m target value =>
    rcases List.mem_append.mp h with h | h
    · exact List.subset_append_of_subset_left _ (Variable.typedNodes_subset h)
    · exact List.subset_append_of_subset_right _ (Expr.typedNodes_subset h)
  | .ifThen m test thenPart =>
    rcases List.mem_append.mp h with h | h
    · exact List.subset_append_of_subset_left _ (Expr.typedNodes_subset h)
    · exact List.subset_append_of_subset_right _ (Stmt.typedNodes_subset h)
  | .ifThenElse m test thenPart elsePart =>
    rcases List.mem_append.mp h with h | h
    · exact List.subset_append_of_subset_left _ (Expr.typedNodes_subset h)
    · refine List.subset_append_of_subset_right _ ?_
      rcases List.mem_append.mp h with h | h
      · exact List.subset_append_of_subset_left _ (Stmt.typedNodes_subset h)
      · exact List.subset_append_of_subset_right _ (Stmt.typedNodes_subset h)
  | .loop m test body =>
    rcases List.mem_append.mp h with h | h
    · exact List.subset_append_of_subset_left _ (Expr.typedNodes_subset h)
    · exact List.subset_append_of_subset_right _ (Stmt.typedNodes_subset h)
  | .call m callee arguments =>
    obtain ⟨e, he, hx⟩ := List.mem_flatMap.mp h
    exact fun y hy => List.mem_flatMap.mpr ⟨e, he, Expr.typedNodes_subset hx hy⟩

/-- The nodes of a node of a list of statements are nodes of the list. -/
lemma typedNodesOf_subset {l : List Stmt} (h : x ∈ typedNodesOf l) :
    x.typedNodes ⊆ typedNodesOf l := by
  match l with
  | [] => cases h
  | s :: rest =>
    rcases List.mem_append.mp h with h | h
    · exact List.subset_append_of_subset_left _ (Stmt.typedNodes_subset h)
    · exact List.subset_append_of_subset_right _ (typedNodesOf_subset h)

end

variable {tables : Tables} {scope : ScopeId}

mutual

/-- Every node of a variable of a type has a type. -/
lemma Variable.HasType.exists_of_mem {v : Variable} {t : TypeId} (hv : v.HasType tables scope t)
    (h : x ∈ v.typedNodes) : ∃ t', x.HasType tables scope t' := by
  match v, hv with
  | .named m name, hv =>
    obtain rfl := List.mem_singleton.mp h
    exact ⟨t, hv⟩
  | .element m array index, .element harray hinfo hindex =>
    rcases List.mem_cons.mp h with rfl | h
    · exact ⟨_, Variable.HasType.element harray hinfo hindex⟩
    · rcases List.mem_append.mp h with h | h
      · exact harray.exists_of_mem h
      · exact hindex.exists_of_mem h

/-- Every node of an expression of a type has a type. -/
lemma Expr.HasType.exists_of_mem {e : Expr} {t : TypeId} (he : e.HasType tables scope t)
    (h : x ∈ e.typedNodes) : ∃ t', x.HasType tables scope t' := by
  match e, he with
  | .int m value, he =>
    obtain rfl := List.mem_singleton.mp h
    exact ⟨t, he⟩
  | .bool m value, he =>
    obtain rfl := List.mem_singleton.mp h
    exact ⟨t, he⟩
  | .read m source, .read hsource =>
    rcases List.mem_cons.mp h with rfl | h
    · exact ⟨_, Expr.HasType.read hsource⟩
    · exact hsource.exists_of_mem h
  | .negate m operand, .negate hoperand =>
    rcases List.mem_cons.mp h with rfl | h
    · exact ⟨_, Expr.HasType.negate hoperand⟩
    · exact hoperand.exists_of_mem h
  | .binary m op left right, .arithmetic hop hleft hright =>
    rcases List.mem_cons.mp h with rfl | h
    · exact ⟨_, Expr.HasType.arithmetic hop hleft hright⟩
    · rcases List.mem_append.mp h with h | h
      · exact hleft.exists_of_mem h
      · exact hright.exists_of_mem h
  | .binary m op left right, .comparison hop hleft hright =>
    rcases List.mem_cons.mp h with rfl | h
    · exact ⟨_, Expr.HasType.comparison hop hleft hright⟩
    · rcases List.mem_append.mp h with h | h
      · exact hleft.exists_of_mem h
      · exact hright.exists_of_mem h

end

/-- Every node of accepted arguments has a type. -/
lemma exists_of_mem_arguments {parameters : List Slot} {arguments : List Expr}
    (haccepts : List.Forall₂ (Slot.Accepts tables scope) parameters arguments)
    (h : x ∈ arguments.flatMap Expr.typedNodes) : ∃ t, x.HasType tables scope t := by
  induction haccepts with
  | nil => cases h
  | cons hfirst _ ih =>
    rw [List.flatMap_cons] at h
    rcases List.mem_append.mp h with h | h
    · exact hfirst.1.exists_of_mem h
    · exact ih h

mutual

/-- Every node of a well-typed statement has a type. -/
lemma Stmt.WellTyped.exists_of_mem {s : Stmt} (hs : s.WellTyped tables scope)
    (h : x ∈ s.typedNodes) : ∃ t, x.HasType tables scope t := by
  match s, hs with
  | .empty m, _ => cases h
  | .block m body, .block hbody => exact exists_of_mem_typedNodesOf hbody h
  | .assign m target value, .assign htarget hvalue =>
    rcases List.mem_append.mp h with h | h
    · exact htarget.exists_of_mem h
    · exact hvalue.exists_of_mem h
  | .ifThen m test thenPart, .ifThen htest hthen =>
    rcases List.mem_append.mp h with h | h
    · exact htest.exists_of_mem h
    · exact hthen.exists_of_mem h
  | .ifThenElse m test thenPart elsePart, .ifThenElse htest hthen helse =>
    rcases List.mem_append.mp h with h | h
    · exact htest.exists_of_mem h
    · rcases List.mem_append.mp h with h | h
      · exact hthen.exists_of_mem h
      · exact helse.exists_of_mem h
  | .loop m test body, .loop htest hbody =>
    rcases List.mem_append.mp h with h | h
    · exact htest.exists_of_mem h
    · exact hbody.exists_of_mem h
  | .call m callee arguments, .call _ haccepts =>
    exact exists_of_mem_arguments haccepts h

/-- Every node of a list of well-typed statements has a type. -/
lemma exists_of_mem_typedNodesOf {l : List Stmt} (hl : ∀ s ∈ l, s.WellTyped tables scope)
    (h : x ∈ typedNodesOf l) : ∃ t, x.HasType tables scope t := by
  match l with
  | [] => cases h
  | s :: rest =>
    obtain ⟨hs, hrest⟩ := List.forall_mem_cons.mp hl
    rcases List.mem_append.mp h with h | h
    · exact hs.exists_of_mem h
    · exact exists_of_mem_typedNodesOf hrest h

end

end

/-- The variables and expressions in the bodies of a program, in pre-order. -/
def Program.typedNodes (p : Program) : List TypedNode :=
  p.procedures.flatMap fun q => typedNodesOf q.body

end TreeCompiler
