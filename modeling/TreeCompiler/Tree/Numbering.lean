import TreeCompiler.Tree.Basic

/-!
# Numbering the nodes of a tree

The nodes of a program are walked in pre-order: a node comes before the nodes inside it, and those
come in the order of the text. `nodes` lists them; `number` gives each node its place in that list,
so that the numbers of a program are `0, 1, 2, …` along the walk and those of a subtree form an
interval that starts at its root.
-/

namespace TreeCompiler

/-- What a node of the tree is. -/
inductive NodeKind where
  | typeDef | procedure | parameter | localVar | typeExpr | stmt | expr | place
deriving DecidableEq, Inhabited

/-- The name of a kind of node in listings. -/
def NodeKind.name : NodeKind → String
  | .typeDef => "type"
  | .procedure => "proc"
  | .parameter => "parameter"
  | .localVar => "var"
  | .typeExpr => "type exp"
  | .stmt => "stm"
  | .expr => "exp"
  | .place => "variable"

/-- A node of the tree without what is inside it. -/
structure Node where
  kind : NodeKind
  mark : Mark
deriving DecidableEq, Inhabited

/-- A node as listings show it: its number, its kind and its line. -/
def Node.describe (n : Node) : String :=
  "#" ++ toString n.mark.id ++ " " ++ n.kind.name ++ " L" ++ toString n.mark.line.toNat

/-! ### The walk -/

/-- The nodes of a type, in pre-order. -/
def TypeExpr.nodes : TypeExpr → List Node
  | .named m _ => [⟨.typeExpr, m⟩]
  | .array m _ base => ⟨.typeExpr, m⟩ :: base.nodes

mutual

/-- The nodes of a variable, in pre-order. -/
def Variable.nodes : Variable → List Node
  | .named m _ => [⟨.place, m⟩]
  | .element m array index => ⟨.place, m⟩ :: (array.nodes ++ index.nodes)

/-- The nodes of an expression, in pre-order. -/
def Expr.nodes : Expr → List Node
  | .int m _ | .bool m _ => [⟨.expr, m⟩]
  | .read m source => ⟨.expr, m⟩ :: source.nodes
  | .negate m operand => ⟨.expr, m⟩ :: operand.nodes
  | .binary m _ left right => ⟨.expr, m⟩ :: (left.nodes ++ right.nodes)

end

mutual

/-- The nodes of a statement, in pre-order. -/
def Stmt.nodes : Stmt → List Node
  | .empty m => [⟨.stmt, m⟩]
  | .block m body => ⟨.stmt, m⟩ :: nodesOf body
  | .assign m target value => ⟨.stmt, m⟩ :: (target.nodes ++ value.nodes)
  | .ifThen m test thenPart => ⟨.stmt, m⟩ :: (test.nodes ++ thenPart.nodes)
  | .ifThenElse m test thenPart elsePart =>
    ⟨.stmt, m⟩ :: (test.nodes ++ (thenPart.nodes ++ elsePart.nodes))
  | .loop m test body => ⟨.stmt, m⟩ :: (test.nodes ++ body.nodes)
  | .call m _ arguments => ⟨.stmt, m⟩ :: arguments.flatMap Expr.nodes

/-- The nodes of a list of statements, in pre-order. -/
def nodesOf : List Stmt → List Node
  | [] => []
  | s :: rest => s.nodes ++ nodesOf rest

end

/-- The nodes of a parameter: itself, then its type. -/
def Parameter.nodes (p : Parameter) : List Node := ⟨.parameter, p.mark⟩ :: p.type.nodes

/-- The nodes of a local variable: itself, then its type. -/
def LocalVar.nodes (v : LocalVar) : List Node := ⟨.localVar, v.mark⟩ :: v.type.nodes

/-- The nodes of a procedure: itself, its parameters, its local variables, its body. -/
def Procedure.nodes (p : Procedure) : List Node :=
  ⟨.procedure, p.mark⟩ ::
    (p.parameters.flatMap Parameter.nodes ++ (p.locals.flatMap LocalVar.nodes ++ nodesOf p.body))

/-- The nodes of a definition, in pre-order. -/
def Definition.nodes : Definition → List Node
  | .type d => ⟨.typeDef, d.mark⟩ :: d.type.nodes
  | .procedure p => p.nodes

/-- The nodes of a program, in pre-order. -/
def Program.nodes (p : Program) : List Node := p.definitions.flatMap Definition.nodes

/-! ### Giving out the numbers

Every `number` takes the number of the root; the nodes inside take the numbers that follow it. -/

/-- Replaces the number of a mark. -/
def Mark.withId (m : Mark) (id : Nat) : Mark := { m with id := id }

/-- Numbers a list whose elements take as many numbers as they have nodes. -/
def numberList {α : Type} (size : α → Nat) (number : Nat → α → α) : Nat → List α → List α
  | _, [] => []
  | n, x :: rest => number n x :: numberList size number (n + size x) rest

/-- Numbers the nodes of a type from `n` on. -/
def TypeExpr.number (n : Nat) : TypeExpr → TypeExpr
  | .named m name => .named (m.withId n) name
  | .array m length base => .array (m.withId n) length (base.number (n + 1))

mutual

/-- Numbers the nodes of a variable from `n` on. -/
def Variable.number (n : Nat) : Variable → Variable
  | .named m name => .named (m.withId n) name
  | .element m array index =>
    .element (m.withId n) (array.number (n + 1)) (index.number (n + 1 + array.nodes.length))

/-- Numbers the nodes of an expression from `n` on. -/
def Expr.number (n : Nat) : Expr → Expr
  | .int m value => .int (m.withId n) value
  | .bool m value => .bool (m.withId n) value
  | .read m source => .read (m.withId n) (source.number (n + 1))
  | .negate m operand => .negate (m.withId n) (operand.number (n + 1))
  | .binary m op left right =>
    .binary (m.withId n) op (left.number (n + 1)) (right.number (n + 1 + left.nodes.length))

end

mutual

/-- Numbers the nodes of a statement from `n` on. -/
def Stmt.number (n : Nat) : Stmt → Stmt
  | .empty m => .empty (m.withId n)
  | .block m body => .block (m.withId n) (numberStmts (n + 1) body)
  | .assign m target value =>
    .assign (m.withId n) (target.number (n + 1)) (value.number (n + 1 + target.nodes.length))
  | .ifThen m test thenPart =>
    .ifThen (m.withId n) (test.number (n + 1)) (thenPart.number (n + 1 + test.nodes.length))
  | .ifThenElse m test thenPart elsePart =>
    .ifThenElse (m.withId n) (test.number (n + 1)) (thenPart.number (n + 1 + test.nodes.length))
      (elsePart.number (n + 1 + test.nodes.length + thenPart.nodes.length))
  | .loop m test body =>
    .loop (m.withId n) (test.number (n + 1)) (body.number (n + 1 + test.nodes.length))
  | .call m callee arguments =>
    .call (m.withId n) callee
      (numberList (fun e => e.nodes.length) Expr.number (n + 1) arguments)

/-- Numbers the nodes of a list of statements from `n` on. -/
def numberStmts (n : Nat) : List Stmt → List Stmt
  | [] => []
  | s :: rest => s.number n :: numberStmts (n + s.nodes.length) rest

end

/-- Numbers a parameter and its type from `n` on. -/
def Parameter.number (n : Nat) (p : Parameter) : Parameter :=
  { p with mark := p.mark.withId n, type := p.type.number (n + 1) }

/-- Numbers a local variable and its type from `n` on. -/
def LocalVar.number (n : Nat) (v : LocalVar) : LocalVar :=
  { v with mark := v.mark.withId n, type := v.type.number (n + 1) }

/-- Numbers the nodes of a procedure from `n` on. -/
def Procedure.number (n : Nat) (p : Procedure) : Procedure :=
  let locals := n + 1 + (p.parameters.flatMap Parameter.nodes).length
  let body := locals + (p.locals.flatMap LocalVar.nodes).length
  { p with
    mark := p.mark.withId n
    parameters := numberList (fun q => q.nodes.length) Parameter.number (n + 1) p.parameters
    locals := numberList (fun v => v.nodes.length) LocalVar.number locals p.locals
    body := numberStmts body p.body }

/-- Numbers the nodes of a definition from `n` on. -/
def Definition.number (n : Nat) : Definition → Definition
  | .type d => .type { d with mark := d.mark.withId n, type := d.type.number (n + 1) }
  | .procedure p => .procedure (p.number n)

/-- The program of a list of definitions, its nodes numbered from 0 on. -/
def Program.ofDefinitions (definitions : List Definition) : Program :=
  ⟨numberList (fun d => d.nodes.length) Definition.number 0 definitions⟩

end TreeCompiler
