import TreeCompiler.Document.Value
import TreeCompiler.Tree.Basic

/-!
# The written form of a tree

The value that a tree is written as: every part with a name of its own is a field of a mapping, in
the order of the text, and a missing `else` is written as no value. The numbers of the nodes are
not written.
-/

namespace TreeCompiler

/-- The mapping of a construct's name to its content. -/
def Value.variant (name : String) (content : Value) : Value := .object [(name, content)]

/-- The written form of a mark. -/
def Mark.written (m : Mark) : Value := .object [("line", .int m.line.toNat)]

/-- The written form of an operator. -/
def BinaryOp.written (op : BinaryOp) : Value :=
  .string <|
    match op with
    | add => "Add"
    | sub => "Sub"
    | mul => "Mul"
    | div => "Div"
    | eq => "Eq"
    | ne => "NEq"
    | lt => "Ls"
    | le => "LsEq"
    | gt => "Gr"
    | ge => "GrEq"

/-- The written form of a type. -/
def TypeExpr.written : TypeExpr → Value
  | .named m name => .variant "Named" (.list [m.written, .string name])
  | .array m length base =>
    .variant "Array" (.object
      [("context", m.written), ("length", .int length.toNat), ("base", base.written)])

mutual

/-- The written form of a variable. -/
def Variable.written : Variable → Value
  | .named m name => .variant "Named" (.list [m.written, .string name])
  | .element m array index =>
    .variant "ArrayAccess" (.object
      [("context", m.written), ("array", array.written), ("index", index.written)])

/-- The written form of an expression. -/
def Expr.written : Expr → Value
  | .int m value => .variant "IntLiteral" (.list [m.written, .int value.toInt])
  | .bool m value => .variant "BoolLiteral" (.list [m.written, .bool value])
  | .read m source => .variant "Variable" (.list [m.written, source.written])
  | .negate m operand =>
    .variant "UnaryOp" (.list [m.written, .string "Minus", operand.written])
  | .binary m op left right =>
    .variant "BinaryOp" (.list [m.written, op.written, left.written, right.written])

end

mutual

/-- The written form of a statement. -/
def Stmt.written : Stmt → Value
  | .empty m => .variant "Empty" m.written
  | .block m body => .variant "Compound" (.list [m.written, .list (writtenStmts body)])
  | .assign m target value =>
    .variant "Assign" (.object
      [("context", m.written), ("target", target.written), ("value", value.written)])
  | .ifThen m test thenPart =>
    .variant "If" (.object
      [("context", m.written), ("cond", test.written), ("then_part", thenPart.written),
        ("else_part", .null)])
  | .ifThenElse m test thenPart elsePart =>
    .variant "If" (.object
      [("context", m.written), ("cond", test.written), ("then_part", thenPart.written),
        ("else_part", elsePart.written)])
  | .loop m test body =>
    .variant "While" (.object
      [("context", m.written), ("cond", test.written), ("body", body.written)])
  | .call m callee arguments =>
    .variant "Call" (.object
      [("context", m.written), ("procedure", .string callee),
        ("arguments", .list (arguments.map Expr.written))])

/-- The written forms of statements. -/
def writtenStmts : List Stmt → List Value
  | [] => []
  | s :: rest => s.written :: writtenStmts rest

end

/-- The written form of a parameter. -/
def Parameter.written (p : Parameter) : Value :=
  .object
    [("context", p.mark.written), ("name", .string p.name), ("ty", p.type.written),
      ("is_reference", .bool p.isReference)]

/-- The written form of a local variable. -/
def LocalVar.written (v : LocalVar) : Value :=
  .object [("context", v.mark.written), ("name", .string v.name), ("ty", v.type.written)]

/-- The written form of a definition. -/
def Definition.written : Definition → Value
  | .type d =>
    .variant "Type" (.object
      [("context", d.mark.written), ("name", .string d.name), ("ty", d.type.written)])
  | .procedure p =>
    .variant "Procedure" (.object
      [("context", p.mark.written), ("name", .string p.name),
        ("parameters", .list (p.parameters.map Parameter.written)),
        ("variables", .list (p.locals.map LocalVar.written)),
        ("body", .list (writtenStmts p.body))])

/-- The written form of a program. -/
def Program.written (p : Program) : Value :=
  .object [("definitions", .list (p.definitions.map Definition.written))]

end TreeCompiler
