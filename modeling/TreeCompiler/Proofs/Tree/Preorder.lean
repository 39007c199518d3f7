import TreeCompiler.Proofs.Tree.Counter
import TreeCompiler.Proofs.Tree.Unnumbered

/-!
# The numbering is a pre-order

Everything in a program that has a node is a `Subtree`, and the walk through a subtree is its root
followed by the walks through its children, from left to right (`Subtree.nodes_eq`).  So the walk
through a part of a subtree is a contiguous piece of the walk through the whole
(`Subtree.Within.nodes_infix`), and since the numbers of a program go up by one along its walk, those
of every subtree are an interval that starts at the number of its root.

`Numbered` collects what the numbering does to a list of definitions, and
`Program.numbered_ofDefinitions` shows it for every list that a 32-bit counter can number.
-/

namespace TreeCompiler

/-! ### Subtrees -/

/-- A piece of a program with a node of its own. -/
inductive Subtree where
  | definition (d : Definition)
  | parameter (q : Parameter)
  | localVar (v : LocalVar)
  | type (e : TypeExpr)
  | stmt (s : Stmt)
  | expr (e : Expr)
  | place (v : Variable)

namespace Subtree

/-- The node at the root of a subtree. -/
def root : Subtree → Node
  | definition (.type d) => ⟨.typeDef, d.mark⟩
  | definition (.procedure q) => ⟨.procedure, q.mark⟩
  | parameter q => ⟨.parameter, q.mark⟩
  | localVar v => ⟨.localVar, v.mark⟩
  | type e => ⟨.typeExpr, e.mark⟩
  | stmt s => ⟨.stmt, s.mark⟩
  | expr e => ⟨.expr, e.mark⟩
  | place v => ⟨.place, v.mark⟩

/-- The walk through a subtree. -/
def nodes : Subtree → List Node
  | definition d => d.nodes
  | parameter q => q.nodes
  | localVar v => v.nodes
  | type e => e.nodes
  | stmt s => s.nodes
  | expr e => e.nodes
  | place v => v.nodes

/-- The subtrees right below a root, from left to right: the parameters of a procedure before its
local variables and those before its body, a test before what it decides about, a target before the
value that is assigned to it, an array before its index. -/
def children : Subtree → List Subtree
  | definition (.type d) => [type d.type]
  | definition (.procedure q) =>
    q.parameters.map parameter ++ (q.locals.map localVar ++ q.body.map stmt)
  | parameter q => [type q.type]
  | localVar v => [type v.type]
  | type (.named _ _) => []
  | type (.array _ _ base) => [type base]
  | stmt (.empty _) => []
  | stmt (.block _ body) => body.map stmt
  | stmt (.assign _ target value) => [place target, expr value]
  | stmt (.ifThen _ test thenPart) => [expr test, stmt thenPart]
  | stmt (.ifThenElse _ test thenPart elsePart) => [expr test, stmt thenPart, stmt elsePart]
  | stmt (.loop _ test body) => [expr test, stmt body]
  | stmt (.call _ _ arguments) => arguments.map expr
  | expr (.int _ _) => []
  | expr (.bool _ _) => []
  | expr (.read _ source) => [place source]
  | expr (.negate _ operand) => [expr operand]
  | expr (.binary _ _ left right) => [expr left, expr right]
  | place (.named _ _) => []
  | place (.element _ array index) => [place array, expr index]

/-- A subtree is inside another one, or is that one. -/
inductive Within : Subtree → Subtree → Prop
  | self (t : Subtree) : Within t t
  | under {s c t : Subtree} (hc : c ∈ t.children) (h : Within s c) : Within s t

/-- The walk through statements goes through one after the other. -/
private lemma nodesOf_eq_flatMap (l : List Stmt) : nodesOf l = l.flatMap Stmt.nodes := by
  induction l with
  | nil => rfl
  | cons s rest ih => rw [nodesOf, ih, List.flatMap_cons]

/-- The walk through a subtree is in pre-order: the root, then its children from left to right. -/
theorem nodes_eq (t : Subtree) : t.nodes = t.root :: t.children.flatMap nodes := by
  cases t with
  | definition d =>
    cases d with
    | type d => simp [nodes, root, children, Definition.nodes]
    | procedure q =>
      simp [nodes, root, children, Definition.nodes, Procedure.nodes, nodesOf_eq_flatMap,
        List.flatMap_map]
  | parameter q => simp [nodes, root, children, Parameter.nodes]
  | localVar v => simp [nodes, root, children, LocalVar.nodes]
  | type e => cases e <;> simp [nodes, root, children, TypeExpr.nodes, TypeExpr.mark]
  | stmt s =>
    cases s <;>
      simp [nodes, root, children, Stmt.nodes, Stmt.mark, nodesOf_eq_flatMap, List.flatMap_map]
  | expr e => cases e <;> simp [nodes, root, children, Expr.nodes, Expr.mark]
  | place v => cases v <;> simp [nodes, root, children, Variable.nodes, Variable.mark]

/-- The walk through a member of a list is a piece of the walk through the list. -/
private lemma infix_flatMap {α β : Type} {x : α} {l : List α} (hx : x ∈ l) (f : α → List β) :
    f x <:+: l.flatMap f := by
  obtain ⟨before, after, rfl⟩ := List.append_of_mem hx
  exact ⟨before.flatMap f, after.flatMap f, by simp⟩

/-- The walk through a part of a subtree is a contiguous piece of the walk through it. -/
lemma Within.nodes_infix {s t : Subtree} (h : Within s t) : s.nodes <:+: t.nodes := by
  induction h with
  | self => exact List.infix_refl _
  | @under c t hc h ih =>
    have hbelow : t.children.flatMap nodes <:+: t.nodes := by
      rw [nodes_eq]
      exact List.infix_cons (List.infix_refl _)
    exact (ih.trans (infix_flatMap hc nodes)).trans hbelow

end Subtree

/-- A contiguous piece of an interval of numbers is the interval from its first number on. -/
private lemma eq_range'_of_cons_infix {a m n : Nat} {l : List Nat}
    (h : a :: l <:+: List.range' m n) : a :: l = List.range' a (a :: l).length := by
  obtain ⟨before, after, h⟩ := h
  obtain ⟨i, -, hfront, -⟩ := List.range'_eq_append_iff.mp h.symm
  obtain ⟨j, -, -, hpiece⟩ := List.range'_eq_append_iff.mp hfront.symm
  obtain ⟨rfl, -, -⟩ := List.range'_eq_cons_iff.mp hpiece.symm
  rw [hpiece, List.length_range']

/-- The subtrees of a program. -/
def Program.HasSubtree (p : Program) (t : Subtree) : Prop :=
  ∃ d ∈ p.definitions, t.Within (.definition d)

/-- A subtree is walked through in one piece. -/
lemma Program.HasSubtree.nodes_infix {p : Program} {t : Subtree} (h : p.HasSubtree t) :
    t.nodes <:+: p.nodes := by
  obtain ⟨d, hd, ht⟩ := h
  exact ht.nodes_infix.trans (Subtree.infix_flatMap hd Definition.nodes)

/-! ### What the numbering does -/

/-- A program is a list of definitions, numbered. -/
structure Numbered (definitions : List Definition) (p : Program) : Prop where
  /-- Nothing but the numbers has changed. -/
  unnumbered : p.definitions.map Definition.unnumbered = definitions.map Definition.unnumbered
  /-- The numbers are 0, 1, 2, … along the walk. -/
  ids : idsOf p.nodes = List.range (definitions.flatMap Definition.nodes).length
  /-- No two nodes have the same number. -/
  distinct : (idsOf p.nodes).Nodup
  /-- Every number is a word of 32 bits. -/
  bounded : ∀ node ∈ p.nodes, node.mark.id < UInt32.size
  /-- The numbers of a subtree are the interval that starts at its root. -/
  interval : ∀ t, p.HasSubtree t → idsOf t.nodes = List.range' t.root.mark.id t.nodes.length
  /-- The numbers are those of a counter that every node asks in its turn. -/
  counted : countDefinitions definitions 0 =
    some (p.definitions, (definitions.flatMap Definition.nodes).length)
  /-- The numbers that were there before do not matter. -/
  forgets : ∀ others : List Definition,
    others.map Definition.unnumbered = definitions.map Definition.unnumbered →
      Program.ofDefinitions others = p
  /-- Numbering the program again gives the same program. -/
  again : Program.ofDefinitions p.definitions = p

namespace Program

/-- Definitions that are the same up to their numbers make the same program. -/
lemma ofDefinitions_congr {definitions others : List Definition}
    (h : others.map Definition.unnumbered = definitions.map Definition.unnumbered) :
    ofDefinitions others = ofDefinitions definitions := by
  rw [← ofDefinitions_unnumbered others, h, ofDefinitions_unnumbered]

/-- The numbers of a subtree of a numbered program are the interval that starts at its root. -/
lemma idsOf_subtree {definitions : List Definition} {t : Subtree}
    (h : (ofDefinitions definitions).HasSubtree t) :
    idsOf t.nodes = List.range' t.root.mark.id t.nodes.length := by
  have hpiece : idsOf t.nodes <:+: List.range (definitions.flatMap Definition.nodes).length := by
    rw [← idsOf_ofDefinitions]
    exact h.nodes_infix.map fun n => n.mark.id
  rw [Subtree.nodes_eq, idsOf_cons, List.range_eq_range'] at hpiece
  rw [Subtree.nodes_eq, idsOf_cons, eq_range'_of_cons_infix hpiece]
  simp [idsOf]

/-- Definitions with fewer than `2 ^ 32` nodes are numbered in pre-order. -/
theorem numbered_ofDefinitions (definitions : List Definition)
    (h : (definitions.flatMap Definition.nodes).length < UInt32.size) :
    Numbered definitions (ofDefinitions definitions) where
  unnumbered := unnumbered_ofDefinitions definitions
  ids := idsOf_ofDefinitions definitions
  distinct := nodup_idsOf_ofDefinitions definitions
  bounded node hnode := by
    have hid : node.mark.id ∈ idsOf (ofDefinitions definitions).nodes :=
      List.mem_map_of_mem hnode
    rw [idsOf_ofDefinitions, List.mem_range] at hid
    exact Nat.lt_trans hid h
  interval _ ht := idsOf_subtree ht
  counted := countDefinitions_eq_some h
  forgets _ hothers := ofDefinitions_congr hothers
  again := ofDefinitions_congr (unnumbered_ofDefinitions definitions)

/-- A type and a procedure whose nodes all claim to be the seventh are numbered in pre-order. -/
theorem numbered_ofDefinitions_sevenths :
    let definitions : List Definition :=
      [.type ⟨⟨7, 1⟩, "pair", .array ⟨7, 1⟩ 2 (.named ⟨7, 1⟩ "int")⟩,
       .procedure ⟨⟨7, 2⟩, "main", [], [⟨⟨7, 3⟩, "a", .named ⟨7, 3⟩ "pair"⟩],
        [.assign ⟨7, 4⟩ (.element ⟨7, 4⟩ (.named ⟨7, 4⟩ "a") (.int ⟨7, 4⟩ 1)) (.int ⟨7, 4⟩ 5)]⟩]
    (definitions.flatMap Definition.nodes).length = 11 ∧
      Numbered definitions (ofDefinitions definitions) :=
  ⟨by decide, numbered_ofDefinitions _ (by decide)⟩

end Program

end TreeCompiler
