import TreeCompiler.Document.Shape
import TreeCompiler.Tree.Numbering

/-!
# How a tree is written

Each construct of a tree has its shape in a document. A choice between constructs is the mapping of
a construct's name to its content; a construct whose parts have names is a record, and the others
are sequences that start with the mark.

The shapes contain themselves. They are built to a given depth, behind which nothing has a shape.
A construct inside another one lies at least one container deeper, so that a depth of one more than
the levels that may be entered is as good as no bound.
-/

namespace TreeCompiler

open FieldShape (required part)
open Record (cons nil)

/-- A mark, of which a text tells the line; the line is 0 if it does not. -/
def Mark.shape : Shape Mark :=
  (Record.shape "struct ParserContext" (cons ⟨"line", .uint32, some 0, some 0⟩ nil)).map
    fun (line, ()) => .atLine line

/-- The field with the mark of a construct. -/
def Mark.field : FieldShape Mark := required "context" Mark.shape

/-- The field with the name of a construct. -/
def nameField : FieldShape String := required "name" .string

/-! ### Types -/

/-- A type, to a depth. -/
def TypeExpr.shape (wrapper : Nat) : Nat → Shape TypeExpr
  | 0 => .never
  | depth + 1 =>
    let base := shape wrapper depth
    .choice wrapper
      [.tuple "TypeExpression" "Named" (cons (part Mark.shape) <| cons (part .string) nil)
          fun (mark, name, ()) => .named mark name,
        .struct "TypeExpression" "Array"
          (cons Mark.field <| cons (required "length" .uint32) <| cons (required "base" base) nil)
          fun (mark, length, base, ()) => .array mark length base]

/-! ### Expressions -/

/-- An operator with two operands. -/
def BinaryOp.shape (wrapper : Nat) : Shape BinaryOp :=
  .choice wrapper
    [.unit "Add" .add, .unit "Sub" .sub, .unit "Mul" .mul, .unit "Div" .div, .unit "Eq" .eq,
      .unit "NEq" .ne, .unit "Ls" .lt, .unit "LsEq" .le, .unit "Gr" .gt, .unit "GrEq" .ge]

/-- The operator with one operand. -/
def minusShape (wrapper : Nat) : Shape Unit := .choice wrapper [.unit "Minus" ()]

mutual

/-- A variable, to a depth. -/
def Variable.shape (wrapper : Nat) : Nat → Shape Variable
  | 0 => .never
  | depth + 1 =>
    let array := Variable.shape wrapper depth
    let index := Expr.shape wrapper depth
    .choice wrapper
      [.tuple "Variable" "Named" (cons (part Mark.shape) <| cons (part .string) nil)
          fun (mark, name, ()) => .named mark name,
        .struct "Variable" "ArrayAccess"
          (cons Mark.field <| cons (required "array" array) <| cons (required "index" index) nil)
          fun (mark, array, index, ()) => .element mark array index]

/-- An expression, to a depth. -/
def Expr.shape (wrapper : Nat) : Nat → Shape Expr
  | 0 => .never
  | depth + 1 =>
    let source := Variable.shape wrapper depth
    let operand := Expr.shape wrapper depth
    .choice wrapper
      [.tuple "Expression" "IntLiteral" (cons (part Mark.shape) <| cons (part .int32) nil)
          fun (mark, value, ()) => .int mark value,
        .tuple "Expression" "BoolLiteral" (cons (part Mark.shape) <| cons (part .bool) nil)
          fun (mark, value, ()) => .bool mark value,
        .tuple "Expression" "Variable" (cons (part Mark.shape) <| cons (part source) nil)
          fun (mark, source, ()) => .read mark source,
        .tuple "Expression" "UnaryOp"
          (cons (part Mark.shape) <| cons (part (minusShape wrapper)) <| cons (part operand) nil)
          fun (mark, (), operand, ()) => .negate mark operand,
        .tuple "Expression" "BinaryOp"
          (cons (part Mark.shape) <| cons (part (BinaryOp.shape wrapper)) <|
            cons (part operand) <| cons (part operand) nil)
          fun (mark, op, left, right, ()) => .binary mark op left right]

end

/-! ### Statements -/

/-- A statement, to a depth. A missing `else_part` is none. -/
def Stmt.shape (wrapper : Nat) : Nat → Shape Stmt
  | 0 => .never
  | depth + 1 =>
    let target := Variable.shape wrapper depth
    let value := Expr.shape wrapper depth
    let body := Stmt.shape wrapper depth
    .choice wrapper
      [.newtype "Empty" (Mark.shape.map .empty),
        .tuple "Statement" "Compound" (cons (part Mark.shape) <| cons (part (.list body)) nil)
          fun (mark, body, ()) => .block mark body,
        .struct "Statement" "Assign"
          (cons Mark.field <| cons (required "target" target) <| cons (required "value" value) nil)
          fun (mark, target, value, ()) => .assign mark target value,
        .struct "Statement" "If"
          (cons Mark.field <| cons (required "cond" value) <| cons (required "then_part" body) <|
            cons ⟨"else_part", .optional body, some none, none⟩ nil)
          fun (mark, test, thenPart, elsePart, ()) =>
            match elsePart with
            | none => .ifThen mark test thenPart
            | some elsePart => .ifThenElse mark test thenPart elsePart,
        .struct "Statement" "While"
          (cons Mark.field <| cons (required "cond" value) <| cons (required "body" body) nil)
          fun (mark, test, body, ()) => .loop mark test body,
        .struct "Statement" "Call"
          (cons Mark.field <| cons (required "procedure" .string) <|
            cons (required "arguments" (.list value)) nil)
          fun (mark, callee, arguments, ()) => .call mark callee arguments]

/-! ### Programs -/

/-- How documents of a format may nest. -/
structure Nesting where
  /-- How many containers may lie inside each other. -/
  limit : Nat
  /-- How many of them the mapping of a construct's name to its content counts for. -/
  wrapper : Nat
deriving DecidableEq, Inhabited

namespace Nesting

/-- The depth to which shapes are built. -/
def depth (n : Nesting) : Nat := n.limit + 1

variable (n : Nesting)

/-- The field with the type of a construct. -/
def typeField : FieldShape TypeExpr := required "ty" (TypeExpr.shape n.wrapper n.depth)

/-- A type definition. -/
def typeDef : Shape TypeDef :=
  (Record.shape "struct TypeDefinition"
    (cons Mark.field <| cons nameField <| cons n.typeField nil)).map
      fun (mark, name, type, ()) => ⟨mark, name, type⟩

/-- A parameter. -/
def parameter : Shape Parameter :=
  (Record.shape "struct ParameterDefinition"
    (cons Mark.field <| cons nameField <| cons n.typeField <|
      cons (required "is_reference" .bool) nil)).map
        fun (mark, name, type, isReference, ()) => ⟨mark, name, type, isReference⟩

/-- A local variable. -/
def localVar : Shape LocalVar :=
  (Record.shape "struct VariableDefinition"
    (cons Mark.field <| cons nameField <| cons n.typeField nil)).map
      fun (mark, name, type, ()) => ⟨mark, name, type⟩

/-- A procedure. -/
def procedure : Shape Procedure :=
  (Record.shape "struct ProcedureDefinition"
    (cons Mark.field <| cons nameField <| cons (required "parameters" (.list n.parameter)) <|
      cons (required "variables" (.list n.localVar)) <|
        cons (required "body" (.list (Stmt.shape n.wrapper n.depth))) nil)).map
          fun (mark, name, parameters, locals, body, ()) =>
            ⟨mark, name, parameters, locals, body⟩

/-- A definition. -/
def definition : Shape Definition :=
  .choice n.wrapper
    [.newtype "Type" (n.typeDef.map .type), .newtype "Procedure" (n.procedure.map .procedure)]

/-- A program. -/
def program : Shape Program :=
  (Record.shape "struct ProgramFile" (cons (required "definitions" (.list n.definition)) nil)).map
    fun (definitions, ()) => .ofDefinitions definitions

end Nesting

/-- The program that a document holds, and nothing behind it. -/
def Document.program (d : Document) (nesting : Nesting) : Reading Program := do
  let program ← nesting.program nesting.limit d.root
  if d.trailing then Reading.malformed else return program

end TreeCompiler
