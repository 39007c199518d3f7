/-!
# Syntax trees

A program is a list of definitions: types and procedures. Procedures have parameters, passed by
value or by reference, local variables, and a body of statements. Values are 32-bit integers and
truth values; types are `int`, `bool`, names for types, and arrays of a fixed length.

Every node carries a `Mark`: its number within the program and its source line. The numbers are
given out by `Program.ofDefinitions`, in the order of the walk `Program.nodes`
(`TreeCompiler.Tree.Numbering`).
-/

namespace TreeCompiler

/-- Where a node stands: its number within the program, and the line of its source text. Numbers are
assumed not to wrap around; those of a program with fewer than `2 ^ 32` nodes are words of 32 bits
(`Numbered.bounded`). -/
structure Mark where
  id : Nat
  line : UInt32
deriving DecidableEq, Inhabited

/-- The mark of a node that has not been numbered yet. -/
def Mark.atLine (line : UInt32) : Mark := ⟨0, line⟩

/-- The operators that take two operands. -/
inductive BinaryOp where
  | add | sub | mul | div
  | eq | ne | lt | le | gt | ge
deriving DecidableEq, Inhabited

namespace BinaryOp

/-- The operators that compare two integers; the others compute one. -/
def isComparison : BinaryOp → Bool
  | add | sub | mul | div => false
  | eq | ne | lt | le | gt | ge => true

/-- How an operator is written in a source program, and so in an error message. -/
def symbol : BinaryOp → String
  | add => "+"
  | sub => "-"
  | mul => "*"
  | div => "/"
  | eq => "="
  | ne => "#"
  | lt => "<"
  | le => "<="
  | gt => ">"
  | ge => ">="

end BinaryOp

/-- A type as it is written: a name, or an array of so many elements of a type. -/
inductive TypeExpr where
  | named (mark : Mark) (name : String)
  | array (mark : Mark) (length : UInt32) (base : TypeExpr)
deriving Inhabited

mutual

/-- A place that holds a value: a name, or an element of an array. -/
inductive Variable where
  | named (mark : Mark) (name : String)
  | element (mark : Mark) (array : Variable) (index : Expr)

/-- A term that has a value. -/
inductive Expr where
  | int (mark : Mark) (value : Int32)
  | bool (mark : Mark) (value : Bool)
  | read (mark : Mark) (source : Variable)
  | negate (mark : Mark) (operand : Expr)
  | binary (mark : Mark) (op : BinaryOp) (left right : Expr)

end

instance : Inhabited Variable := ⟨.named default ""⟩
instance : Inhabited Expr := ⟨.bool default false⟩

/-- The statements of a procedure's body. -/
inductive Stmt where
  | empty (mark : Mark)
  | block (mark : Mark) (body : List Stmt)
  | assign (mark : Mark) (target : Variable) (value : Expr)
  | ifThen (mark : Mark) (test : Expr) (thenPart : Stmt)
  | ifThenElse (mark : Mark) (test : Expr) (thenPart elsePart : Stmt)
  | loop (mark : Mark) (test : Expr) (body : Stmt)
  | call (mark : Mark) (callee : String) (arguments : List Expr)
deriving Inhabited

/-- A name given to a type. -/
structure TypeDef where
  mark : Mark
  name : String
  type : TypeExpr
deriving Inhabited

/-- A formal parameter: a copy of its argument, or another name for it. -/
structure Parameter where
  mark : Mark
  name : String
  type : TypeExpr
  isReference : Bool
deriving Inhabited

/-- A variable of a procedure's own. -/
structure LocalVar where
  mark : Mark
  name : String
  type : TypeExpr
deriving Inhabited

/-- A procedure with everything that is declared and done in it. -/
structure Procedure where
  mark : Mark
  name : String
  parameters : List Parameter
  locals : List LocalVar
  body : List Stmt
deriving Inhabited

/-- What a program defines at its top level. -/
inductive Definition where
  | type (definition : TypeDef)
  | procedure (definition : Procedure)
deriving Inhabited

/-- A program: its definitions in the order of their text. -/
structure Program where
  definitions : List Definition
deriving Inhabited

/-! ### Marks -/

/-- The mark of a type's outermost node. -/
def TypeExpr.mark : TypeExpr → Mark
  | .named m _ | .array m _ _ => m

/-- The mark of a variable's outermost node. -/
def Variable.mark : Variable → Mark
  | .named m _ | .element m _ _ => m

/-- The mark of an expression's outermost node. -/
def Expr.mark : Expr → Mark
  | .int m _ | .bool m _ | .read m _ | .negate m _ | .binary m _ _ _ => m

/-- The mark of a statement's outermost node. -/
def Stmt.mark : Stmt → Mark
  | .empty m | .block m _ | .assign m _ _ | .ifThen m _ _ | .ifThenElse m _ _ _ | .loop m _ _
  | .call m _ _ => m

/-! ### Views -/

/-- The variable that an expression reads, if it is a plain variable. -/
def Expr.variable? : Expr → Option Variable
  | .read _ v => some v
  | _ => none

/-- The type definitions of a program, in order. -/
def Program.typeDefs (p : Program) : List TypeDef :=
  p.definitions.filterMap fun
    | .type d => some d
    | .procedure _ => none

/-- The procedures of a program, in order. -/
def Program.procedures (p : Program) : List Procedure :=
  p.definitions.filterMap fun
    | .type _ => none
    | .procedure d => some d

/-- The program without definitions. -/
def Program.empty : Program := ⟨[]⟩

/-- The name of the procedure that a program starts with. -/
def mainName : String := "main"

mutual

/-- Every call of a statement, in order: the callee and the arguments. -/
def Stmt.calls : Stmt → List (String × List Expr)
  | .empty _ | .assign _ _ _ => []
  | .block _ body => callsOf body
  | .ifThen _ _ thenPart => thenPart.calls
  | .ifThenElse _ _ thenPart elsePart => thenPart.calls ++ elsePart.calls
  | .loop _ _ body => body.calls
  | .call _ callee arguments => [(callee, arguments)]

/-- Every call of a list of statements, in order. -/
def callsOf : List Stmt → List (String × List Expr)
  | [] => []
  | s :: rest => s.calls ++ callsOf rest

end

/-- Every call of a procedure's body, in order. -/
def Procedure.calls (p : Procedure) : List (String × List Expr) := callsOf p.body

end TreeCompiler
