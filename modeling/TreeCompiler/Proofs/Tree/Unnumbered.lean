import TreeCompiler.Proofs.Tree.Numbering
import TreeCompiler.Tree.Written

/-!
# Trees without numbers

A text does not tell the numbers of nodes.  The written form of a tree is the same whatever its
numbers are (`written_number`), a tree whose numbers are taken away is numbered as before
(`number_unnumbered`), and what is left when the numbers are taken away again is what was there
before they were given out (`unnumbered_number`).
-/

namespace TreeCompiler

/-- A mark without its number. -/
def Mark.unnumbered (m : Mark) : Mark := .atLine m.line

@[simp] lemma Mark.withId_unnumbered (m : Mark) (n : Nat) : m.unnumbered.withId n = m.withId n :=
  rfl

@[simp] lemma Mark.unnumbered_withId (m : Mark) (n : Nat) : (m.withId n).unnumbered = m.unnumbered :=
  rfl

@[simp] lemma Mark.written_withId (m : Mark) (n : Nat) : (m.withId n).written = m.written := rfl

/-! ### Types -/

/-- A type without its numbers. -/
def TypeExpr.unnumbered : TypeExpr → TypeExpr
  | .named m name => .named m.unnumbered name
  | .array m length base => .array m.unnumbered length base.unnumbered

/-- Without its numbers a type is numbered as before. -/
@[simp] lemma TypeExpr.number_unnumbered (e : TypeExpr) (n : Nat) :
    e.unnumbered.number n = e.number n := by
  induction e generalizing n with
  | named m name => rfl
  | array m length base ih => simp [unnumbered, number, ih]

/-- Numbering a type gives it numbers and nothing else. -/
@[simp] lemma TypeExpr.unnumbered_number (e : TypeExpr) (n : Nat) :
    (e.number n).unnumbered = e.unnumbered := by
  induction e generalizing n with
  | named m name => rfl
  | array m length base ih => simp [unnumbered, number, ih]

/-- A type is written without its numbers. -/
@[simp] lemma TypeExpr.written_number (e : TypeExpr) (n : Nat) :
    (e.number n).written = e.written := by
  induction e generalizing n with
  | named m name => rfl
  | array m length base ih => simp [number, written, ih]

/-- A type has the same nodes without its numbers. -/
@[simp] lemma TypeExpr.length_nodes_unnumbered (e : TypeExpr) :
    e.unnumbered.nodes.length = e.nodes.length := by
  induction e with
  | named m name => rfl
  | array m length base ih => simp [unnumbered, nodes, ih]

/-! ### Variables and expressions -/

mutual

/-- A variable without its numbers. -/
def Variable.unnumbered : Variable → Variable
  | .named m name => .named m.unnumbered name
  | .element m array index => .element m.unnumbered array.unnumbered index.unnumbered

/-- An expression without its numbers. -/
def Expr.unnumbered : Expr → Expr
  | .int m value => .int m.unnumbered value
  | .bool m value => .bool m.unnumbered value
  | .read m source => .read m.unnumbered source.unnumbered
  | .negate m operand => .negate m.unnumbered operand.unnumbered
  | .binary m op left right => .binary m.unnumbered op left.unnumbered right.unnumbered

end

mutual

/-- A variable has the same nodes without its numbers. -/
@[simp] lemma Variable.length_nodes_unnumbered (v : Variable) :
    v.unnumbered.nodes.length = v.nodes.length := by
  match v with
  | .named _ _ => rfl
  | .element _ array index =>
    simp [Variable.unnumbered, Variable.nodes, array.length_nodes_unnumbered,
      index.length_nodes_unnumbered]

/-- An expression has the same nodes without its numbers. -/
@[simp] lemma Expr.length_nodes_unnumbered (e : Expr) :
    e.unnumbered.nodes.length = e.nodes.length := by
  match e with
  | .int _ _ | .bool _ _ => rfl
  | .read _ source => simp [Expr.unnumbered, Expr.nodes, source.length_nodes_unnumbered]
  | .negate _ operand => simp [Expr.unnumbered, Expr.nodes, operand.length_nodes_unnumbered]
  | .binary _ _ left right =>
    simp [Expr.unnumbered, Expr.nodes, left.length_nodes_unnumbered, right.length_nodes_unnumbered]

end

mutual

/-- Without its numbers a variable is numbered as before. -/
@[simp] lemma Variable.number_unnumbered (v : Variable) (n : Nat) :
    v.unnumbered.number n = v.number n := by
  match v with
  | .named _ _ => rfl
  | .element _ array index =>
    simp [Variable.unnumbered, Variable.number, array.number_unnumbered, index.number_unnumbered]

/-- Without its numbers an expression is numbered as before. -/
@[simp] lemma Expr.number_unnumbered (e : Expr) (n : Nat) : e.unnumbered.number n = e.number n := by
  match e with
  | .int _ _ | .bool _ _ => rfl
  | .read _ source => simp [Expr.unnumbered, Expr.number, source.number_unnumbered]
  | .negate _ operand => simp [Expr.unnumbered, Expr.number, operand.number_unnumbered]
  | .binary _ _ left right =>
    simp [Expr.unnumbered, Expr.number, left.number_unnumbered, right.number_unnumbered]

end

mutual

/-- Numbering a variable gives it numbers and nothing else. -/
@[simp] lemma Variable.unnumbered_number (v : Variable) (n : Nat) :
    (v.number n).unnumbered = v.unnumbered := by
  match v with
  | .named _ _ => rfl
  | .element _ array index =>
    simp [Variable.unnumbered, Variable.number, array.unnumbered_number, index.unnumbered_number]

/-- Numbering an expression gives it numbers and nothing else. -/
@[simp] lemma Expr.unnumbered_number (e : Expr) (n : Nat) :
    (e.number n).unnumbered = e.unnumbered := by
  match e with
  | .int _ _ | .bool _ _ => rfl
  | .read _ source => simp [Expr.unnumbered, Expr.number, source.unnumbered_number]
  | .negate _ operand => simp [Expr.unnumbered, Expr.number, operand.unnumbered_number]
  | .binary _ _ left right =>
    simp [Expr.unnumbered, Expr.number, left.unnumbered_number, right.unnumbered_number]

end

mutual

/-- A variable is written without its numbers. -/
@[simp] lemma Variable.written_number (v : Variable) (n : Nat) :
    (v.number n).written = v.written := by
  match v with
  | .named _ _ => rfl
  | .element _ array index =>
    simp [Variable.number, Variable.written, array.written_number, index.written_number]

/-- An expression is written without its numbers. -/
@[simp] lemma Expr.written_number (e : Expr) (n : Nat) : (e.number n).written = e.written := by
  match e with
  | .int _ _ | .bool _ _ => rfl
  | .read _ source => simp [Expr.number, Expr.written, source.written_number]
  | .negate _ operand => simp [Expr.number, Expr.written, operand.written_number]
  | .binary _ _ left right =>
    simp [Expr.number, Expr.written, left.written_number, right.written_number]

end

/-! ### Statements -/

mutual

/-- A statement without its numbers. -/
def Stmt.unnumbered : Stmt → Stmt
  | .empty m => .empty m.unnumbered
  | .block m body => .block m.unnumbered (unnumberedStmts body)
  | .assign m target value => .assign m.unnumbered target.unnumbered value.unnumbered
  | .ifThen m test thenPart => .ifThen m.unnumbered test.unnumbered thenPart.unnumbered
  | .ifThenElse m test thenPart elsePart =>
    .ifThenElse m.unnumbered test.unnumbered thenPart.unnumbered elsePart.unnumbered
  | .loop m test body => .loop m.unnumbered test.unnumbered body.unnumbered
  | .call m callee arguments => .call m.unnumbered callee (arguments.map Expr.unnumbered)

/-- Statements without their numbers. -/
def unnumberedStmts : List Stmt → List Stmt
  | [] => []
  | s :: rest => s.unnumbered :: unnumberedStmts rest

end

/-- Elements that are numbered as before are so in a list. -/
lemma numberList_map {α : Type} {nodes : α → List Node} {number : Nat → α → α} {f : α → α}
    (hnodes : ∀ a, (nodes (f a)).length = (nodes a).length)
    (hnumber : ∀ n a, number n (f a) = number n a) (n : Nat) (l : List α) :
    numberList (fun a => (nodes a).length) number n (l.map f) =
      numberList (fun a => (nodes a).length) number n l := by
  induction l generalizing n with
  | nil => rfl
  | cons a rest ih => rw [List.map_cons, numberList, numberList, hnumber, hnodes, ih]

/-- What does not depend on the numbers of elements does not do so in a list. -/
lemma map_numberList {α β : Type} {size : α → Nat} {number : Nat → α → α} {f : α → β}
    (h : ∀ n a, f (number n a) = f a) (n : Nat) (l : List α) :
    (numberList size number n l).map f = l.map f := by
  induction l generalizing n with
  | nil => rfl
  | cons a rest ih => rw [numberList, List.map_cons, List.map_cons, h, ih]

/-- Expressions have the same nodes without their numbers. -/
lemma length_flatMap_map {α : Type} {nodes : α → List Node} {f : α → α}
    (h : ∀ a, (nodes (f a)).length = (nodes a).length) (l : List α) :
    ((l.map f).flatMap nodes).length = (l.flatMap nodes).length := by
  simp only [List.length_flatMap, List.map_map, Function.comp_def, h]

mutual

/-- A statement has the same nodes without its numbers. -/
@[simp] lemma Stmt.length_nodes_unnumbered (s : Stmt) :
    s.unnumbered.nodes.length = s.nodes.length := by
  match s with
  | .empty _ => rfl
  | .block _ body => simp [Stmt.unnumbered, Stmt.nodes, length_nodesOf_unnumberedStmts body]
  | .assign _ target value => simp [Stmt.unnumbered, Stmt.nodes]
  | .ifThen _ test thenPart =>
    simp [Stmt.unnumbered, Stmt.nodes, thenPart.length_nodes_unnumbered]
  | .ifThenElse _ test thenPart elsePart =>
    simp [Stmt.unnumbered, Stmt.nodes, thenPart.length_nodes_unnumbered,
      elsePart.length_nodes_unnumbered]
  | .loop _ test body => simp [Stmt.unnumbered, Stmt.nodes, body.length_nodes_unnumbered]
  | .call _ callee arguments =>
    rw [Stmt.unnumbered, Stmt.nodes, Stmt.nodes, List.length_cons, List.length_cons,
      length_flatMap_map Expr.length_nodes_unnumbered]

/-- Statements have the same nodes without their numbers. -/
@[simp] lemma length_nodesOf_unnumberedStmts (l : List Stmt) :
    (nodesOf (unnumberedStmts l)).length = (nodesOf l).length := by
  match l with
  | [] => rfl
  | s :: rest =>
    simp [unnumberedStmts, nodesOf, s.length_nodes_unnumbered, length_nodesOf_unnumberedStmts rest]

end

mutual

/-- Without its numbers a statement is numbered as before. -/
@[simp] lemma Stmt.number_unnumbered (s : Stmt) (n : Nat) : s.unnumbered.number n = s.number n := by
  match s with
  | .empty _ => rfl
  | .block _ body => simp [Stmt.unnumbered, Stmt.number, numberStmts_unnumberedStmts body]
  | .assign _ target value => simp [Stmt.unnumbered, Stmt.number]
  | .ifThen _ test thenPart => simp [Stmt.unnumbered, Stmt.number, thenPart.number_unnumbered]
  | .ifThenElse _ test thenPart elsePart =>
    simp [Stmt.unnumbered, Stmt.number, thenPart.number_unnumbered, elsePart.number_unnumbered]
  | .loop _ test body => simp [Stmt.unnumbered, Stmt.number, body.number_unnumbered]
  | .call _ callee arguments =>
    rw [Stmt.unnumbered, Stmt.number, Stmt.number, Mark.withId_unnumbered,
      numberList_map Expr.length_nodes_unnumbered fun n e => e.number_unnumbered n]

/-- Without their numbers statements are numbered as before. -/
@[simp] lemma numberStmts_unnumberedStmts (l : List Stmt) (n : Nat) :
    numberStmts n (unnumberedStmts l) = numberStmts n l := by
  match l with
  | [] => rfl
  | s :: rest =>
    simp [unnumberedStmts, numberStmts, s.number_unnumbered, numberStmts_unnumberedStmts rest]

end

mutual

/-- Numbering a statement gives it numbers and nothing else. -/
@[simp] lemma Stmt.unnumbered_number (s : Stmt) (n : Nat) :
    (s.number n).unnumbered = s.unnumbered := by
  match s with
  | .empty _ => rfl
  | .block _ body => simp [Stmt.unnumbered, Stmt.number, unnumberedStmts_numberStmts body]
  | .assign _ target value => simp [Stmt.unnumbered, Stmt.number]
  | .ifThen _ test thenPart => simp [Stmt.unnumbered, Stmt.number, thenPart.unnumbered_number]
  | .ifThenElse _ test thenPart elsePart =>
    simp [Stmt.unnumbered, Stmt.number, thenPart.unnumbered_number, elsePart.unnumbered_number]
  | .loop _ test body => simp [Stmt.unnumbered, Stmt.number, body.unnumbered_number]
  | .call _ callee arguments =>
    rw [Stmt.number, Stmt.unnumbered, Stmt.unnumbered, Mark.unnumbered_withId,
      map_numberList fun n e => e.unnumbered_number n]

/-- Numbering statements gives them numbers and nothing else. -/
@[simp] lemma unnumberedStmts_numberStmts (l : List Stmt) (n : Nat) :
    unnumberedStmts (numberStmts n l) = unnumberedStmts l := by
  match l with
  | [] => rfl
  | s :: rest =>
    simp [numberStmts, unnumberedStmts, s.unnumbered_number, unnumberedStmts_numberStmts rest]

end

mutual

/-- A statement is written without its numbers. -/
@[simp] lemma Stmt.written_number (s : Stmt) (n : Nat) : (s.number n).written = s.written := by
  match s with
  | .empty _ => rfl
  | .block _ body => simp [Stmt.number, Stmt.written, writtenStmts_numberStmts body]
  | .assign _ target value => simp [Stmt.number, Stmt.written]
  | .ifThen _ test thenPart => simp [Stmt.number, Stmt.written, thenPart.written_number]
  | .ifThenElse _ test thenPart elsePart =>
    simp [Stmt.number, Stmt.written, thenPart.written_number, elsePart.written_number]
  | .loop _ test body => simp [Stmt.number, Stmt.written, body.written_number]
  | .call _ callee arguments =>
    rw [Stmt.number, Stmt.written, Stmt.written, Mark.written_withId,
      map_numberList fun n e => e.written_number n]

/-- Statements are written without their numbers. -/
@[simp] lemma writtenStmts_numberStmts (l : List Stmt) (n : Nat) :
    writtenStmts (numberStmts n l) = writtenStmts l := by
  match l with
  | [] => rfl
  | s :: rest => simp [numberStmts, writtenStmts, s.written_number, writtenStmts_numberStmts rest]

end

/-- Statements without their numbers are each without its numbers. -/
lemma unnumberedStmts_eq_map (l : List Stmt) : unnumberedStmts l = l.map Stmt.unnumbered := by
  induction l with
  | nil => rfl
  | cons s rest ih => rw [unnumberedStmts, ih, List.map_cons]

/-- The written form of a list of statements lists their written forms. -/
lemma writtenStmts_eq_map (l : List Stmt) : writtenStmts l = l.map Stmt.written := by
  induction l with
  | nil => rfl
  | cons s rest ih => rw [writtenStmts, ih, List.map_cons]

/-! ### Definitions and programs -/

/-- A parameter without its numbers. -/
def Parameter.unnumbered (p : Parameter) : Parameter :=
  { p with mark := p.mark.unnumbered, type := p.type.unnumbered }

/-- A local variable without its numbers. -/
def LocalVar.unnumbered (v : LocalVar) : LocalVar :=
  { v with mark := v.mark.unnumbered, type := v.type.unnumbered }

/-- A type definition without its numbers. -/
def TypeDef.unnumbered (d : TypeDef) : TypeDef :=
  { d with mark := d.mark.unnumbered, type := d.type.unnumbered }

/-- A procedure without its numbers. -/
def Procedure.unnumbered (p : Procedure) : Procedure :=
  { p with
    mark := p.mark.unnumbered
    parameters := p.parameters.map Parameter.unnumbered
    locals := p.locals.map LocalVar.unnumbered
    body := unnumberedStmts p.body }

/-- A definition without its numbers. -/
def Definition.unnumbered : Definition → Definition
  | .type d => .type d.unnumbered
  | .procedure p => .procedure p.unnumbered

/-- A parameter has the same nodes without its numbers. -/
lemma Parameter.length_nodes_unnumbered (p : Parameter) :
    p.unnumbered.nodes.length = p.nodes.length := by
  simp [unnumbered, nodes]

/-- Without its numbers a parameter is numbered as before. -/
lemma Parameter.number_unnumbered (n : Nat) (p : Parameter) :
    p.unnumbered.number n = p.number n := by
  simp [unnumbered, number]

/-- Numbering a parameter gives it numbers and nothing else. -/
lemma Parameter.unnumbered_number (n : Nat) (p : Parameter) :
    (p.number n).unnumbered = p.unnumbered := by
  simp [unnumbered, number]

/-- A parameter is written without its numbers. -/
lemma Parameter.written_number (n : Nat) (p : Parameter) : (p.number n).written = p.written := by
  simp [number, written]

/-- A local variable has the same nodes without its numbers. -/
lemma LocalVar.length_nodes_unnumbered (v : LocalVar) :
    v.unnumbered.nodes.length = v.nodes.length := by
  simp [unnumbered, nodes]

/-- Without its numbers a local variable is numbered as before. -/
lemma LocalVar.number_unnumbered (n : Nat) (v : LocalVar) : v.unnumbered.number n = v.number n := by
  simp [unnumbered, number]

/-- Numbering a local variable gives it numbers and nothing else. -/
lemma LocalVar.unnumbered_number (n : Nat) (v : LocalVar) :
    (v.number n).unnumbered = v.unnumbered := by
  simp [unnumbered, number]

/-- A local variable is written without its numbers. -/
lemma LocalVar.written_number (n : Nat) (v : LocalVar) : (v.number n).written = v.written := by
  simp [number, written]

/-- A definition has the same nodes without its numbers. -/
lemma Definition.length_nodes_unnumbered (d : Definition) :
    d.unnumbered.nodes.length = d.nodes.length := by
  cases d with
  | type d => simp [unnumbered, TypeDef.unnumbered, nodes]
  | procedure p =>
    simp only [unnumbered, Procedure.unnumbered, nodes, Procedure.nodes, List.length_cons,
      List.length_append, length_flatMap_map Parameter.length_nodes_unnumbered,
      length_flatMap_map LocalVar.length_nodes_unnumbered, length_nodesOf_unnumberedStmts]

/-- Without its numbers a definition is numbered as before. -/
lemma Definition.number_unnumbered (n : Nat) (d : Definition) :
    d.unnumbered.number n = d.number n := by
  cases d with
  | type d => simp [unnumbered, TypeDef.unnumbered, number]
  | procedure p =>
    simp only [unnumbered, Procedure.unnumbered, number, Procedure.number, Mark.withId_unnumbered,
      length_flatMap_map Parameter.length_nodes_unnumbered,
      length_flatMap_map LocalVar.length_nodes_unnumbered, numberStmts_unnumberedStmts,
      numberList_map Parameter.length_nodes_unnumbered Parameter.number_unnumbered,
      numberList_map LocalVar.length_nodes_unnumbered LocalVar.number_unnumbered]

/-- Numbering a definition gives it numbers and nothing else. -/
lemma Definition.unnumbered_number (n : Nat) (d : Definition) :
    (d.number n).unnumbered = d.unnumbered := by
  cases d with
  | type d => simp [unnumbered, TypeDef.unnumbered, number]
  | procedure p =>
    simp only [unnumbered, Procedure.unnumbered, number, Procedure.number, Mark.unnumbered_withId,
      unnumberedStmts_numberStmts, map_numberList Parameter.unnumbered_number,
      map_numberList LocalVar.unnumbered_number]

/-- A definition is written without its numbers. -/
lemma Definition.written_number (n : Nat) (d : Definition) : (d.number n).written = d.written := by
  cases d with
  | type d => simp [number, written]
  | procedure p =>
    simp only [number, Procedure.number, written, Mark.written_withId, writtenStmts_numberStmts,
      map_numberList Parameter.written_number, map_numberList LocalVar.written_number]

namespace Program

/-- A program is written without its numbers. -/
lemma written_ofDefinitions (definitions : List Definition) :
    (ofDefinitions definitions).written = (Program.mk definitions).written := by
  rw [written, written, ofDefinitions, map_numberList Definition.written_number]

/-- Definitions without their numbers make the same program. -/
lemma ofDefinitions_unnumbered (definitions : List Definition) :
    ofDefinitions (definitions.map Definition.unnumbered) = ofDefinitions definitions := by
  rw [ofDefinitions,
    numberList_map Definition.length_nodes_unnumbered Definition.number_unnumbered]
  rfl

/-- Numbering definitions gives them numbers and nothing else. -/
lemma unnumbered_ofDefinitions (definitions : List Definition) :
    (ofDefinitions definitions).definitions.map Definition.unnumbered =
      definitions.map Definition.unnumbered :=
  map_numberList Definition.unnumbered_number 0 definitions

end Program

end TreeCompiler
