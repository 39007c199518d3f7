import TreeCompiler.Assembly.Emission
import TreeCompiler.Proofs.Frame.Placement

/-!
# The code of a program

The code that is emitted for a program in closed form.  The code of an expression depends on the
number of registers in use and on the number of the next label; how many registers and labels it
takes is counted apart (`Expr.need`, `Expr.labels`).  About names the code only has to know where
the variables of a procedure lie (`Procedure.places`) and how the parameters of a procedure are
passed (`Program.signature`), and both can be read off the program.  That these definitions describe
what is emitted is shown in `TreeCompiler.Proofs.Emission.Closed`.
-/

namespace TreeCompiler

/-- A register of the bank in which expressions are evaluated. -/
def bank (n : Nat) : Register := ⟨UInt8.ofNat (8 + n)⟩

/-- The number of registers in the bank. -/
def bankSize : Nat := 16

/-- The registers of the bank are none of those with a meaning of their own. -/
lemma bank_ne : ∀ {n : Nat}, n < bankSize →
    bank n ≠ .zero ∧ bank n ≠ .fp ∧ bank n ≠ .sp ∧ bank n ≠ .ra := by
  decide

/-- The registers of the bank are different. -/
lemma bank_injective : ∀ {n : Nat}, n < bankSize → ∀ {k : Nat}, k < bankSize →
    bank n = bank k → n = k := by
  decide

/-- The name of a label that is made up. -/
def labelName (l : Nat) : String := "L" ++ toString l

/-! ### What code depends on -/

/-- A variable as the code of its procedure knows it: its shape, whether its own word is an address,
and where it lies from the frame pointer. -/
structure Place where
  shape : ValueShape
  isReference : Bool
  offset : Int
deriving DecidableEq, Inhabited

/-- A parameter as the code of a caller knows it. -/
structure Formal where
  shape : ValueShape
  isReference : Bool
deriving DecidableEq, Inhabited

/-- A declared variable that lies at an offset. -/
def VariableDecl.place (names : List (String × ValueShape)) (d : VariableDecl) (offset : Int) :
    String × Place :=
  (d.name, ⟨(d.type.shape? names).getD .int, d.isReference, offset⟩)

/-- The places of the variables of a procedure. -/
def Procedure.places (names : List (String × ValueShape)) (q : Procedure) : List (String × Place) :=
  List.zipWith (VariableDecl.place names) q.decls (q.offsets names)

/-- The parameters of a procedure. -/
def Procedure.formals (names : List (String × ValueShape)) (q : Procedure) : List Formal :=
  q.parameters.map fun p => ⟨(p.type.shape? names).getD .int, p.isReference⟩

/-- The parameters of a runtime procedure, which are all integers. -/
def RuntimeProcedure.formals (r : RuntimeProcedure) : List Formal :=
  r.references.map fun isReference => ⟨.int, isReference⟩

/-- The parameters of the procedure that a program gives a name to. -/
def Program.signature (p : Program) (name : String) : Option (List Formal) :=
  match p.procedures.find? (·.name == name) with
  | some q => some (q.formals p.typeNames)
  | none => (runtimeProcedures.find? (·.name == name)).map RuntimeProcedure.formals

/-! ### Shapes, labels and registers of expressions -/

mutual

/-- The shape of what a variable stands for, if the variable makes sense. -/
def Variable.shape? (places : List (String × Place)) : Variable → Option ValueShape
  | .named _ name => (places.lookup name).map Place.shape
  | .element _ array index =>
    match array.shape? places, index.shape? places with
    | some (.array _ s), some .int => some s
    | _, _ => none

/-- The shape of the value of an expression, if the expression makes sense. -/
def Expr.shape? (places : List (String × Place)) : Expr → Option ValueShape
  | .int _ _ => some .int
  | .bool _ _ => some .bool
  | .read _ source => source.shape? places
  | .negate _ operand =>
    match operand.shape? places with
    | some .int => some .int
    | _ => none
  | .binary _ op left right =>
    match left.shape? places, right.shape? places with
    | some .int, some .int => some (if op.isComparison then .bool else .int)
    | _, _ => none

end

mutual

/-- How many labels the code of a variable takes. -/
def Variable.labels : Variable → Nat
  | .named _ _ => 0
  | .element _ array index => array.labels + index.labels

/-- How many labels the code of an expression takes. -/
def Expr.labels : Expr → Nat
  | .int _ _ | .bool _ _ => 0
  | .read _ source => source.labels
  | .negate _ operand => operand.labels
  | .binary _ op left right =>
    left.labels + right.labels + (if op.isComparison then 2 else 0)

end

mutual

/-- How many registers the code of a variable takes. -/
def Variable.need : Variable → Nat
  | .named _ _ => 1
  | .element _ array index => max (max array.need (1 + index.need)) 3

/-- How many registers the code of an expression takes. -/
def Expr.need : Expr → Nat
  | .int _ _ | .bool _ _ => 1
  | .read _ source => source.need
  | .negate _ operand => operand.need
  | .binary _ _ left right => max left.need (1 + right.need)

end

/-! ### The code of expressions -/

/-- The code for the address of a named variable. -/
def Place.code (p : Place) (n : Nat) : Code :=
  .arith .add (bank n) .fp (.integer p.offset) ::
    if p.isReference then [.load (bank n) (bank n) 0] else []

/-- The code that goes from the address of an array to that of an element. -/
def indexCode (n length size : Nat) : Code :=
  [loadInteger (bank (n + 2)) length,
    .branch .geUnsigned (bank (n + 1)) (bank (n + 2)) indexErrorLabel,
    .arith .mul (bank (n + 1)) (bank (n + 1)) (.integer size),
    .arith .add (bank n) (bank n) (.register (bank (n + 1)))]

/-- The code that turns a comparison into 1 or 0. -/
def compareCode (op : BinaryOp) (n l : Nat) : Code :=
  [.branch op.inverseBranch (bank n) (bank (n + 1)) (labelName l),
    loadInteger (bank n) 1,
    .jump (labelName (l + 1)),
    .label (labelName l),
    loadInteger (bank n) 0,
    .label (labelName (l + 1))]

/-- The code of an operator. -/
def BinaryOp.code (op : BinaryOp) (n l : Nat) : Code :=
  match op.arith? with
  | some arith => [.arith arith (bank n) (bank n) (.register (bank (n + 1)))]
  | none => compareCode op n l

mutual

/-- The code for the address of a variable, with `n` registers in use and `l` labels taken. -/
def Variable.code (places : List (String × Place)) : Variable → Nat → Nat → Code
  | .named _ name, n, _ =>
    match places.lookup name with
    | some p => p.code n
    | none => []
  | .element _ array index, n, l =>
    array.code places n l ++ index.code places (n + 1) (l + array.labels) ++
      match array.shape? places with
      | some (.array length s) => indexCode n length (Word.size * s.cells)
      | _ => []

/-- The code for the value of an expression, with `n` registers in use and `l` labels taken. -/
def Expr.code (places : List (String × Place)) : Expr → Nat → Nat → Code
  | .int _ value, n, _ => [loadInteger (bank n) value.toInt]
  | .bool _ value, n, _ => [loadInteger (bank n) (if value then 1 else 0)]
  | .read _ source, n, l => source.code places n l ++ [.load (bank n) (bank n) 0]
  | .negate _ operand, n, l =>
    operand.code places n l ++ [.arith .sub (bank n) .zero (.register (bank n))]
  | .binary _ op left right, n, l =>
    left.code places n l ++ right.code places (n + 1) (l + left.labels) ++
      op.code n (l + left.labels + right.labels)

end

/-! ### The code of statements -/

/-- How many labels the code of a condition takes. -/
def Expr.conditionLabels : Expr → Nat
  | .binary mark op left right =>
    if op.isComparison then left.labels + right.labels else (Expr.binary mark op left right).labels
  | e => e.labels

/-- The code that branches to a label if a condition does not hold. -/
def Expr.conditionCode (places : List (String × Place)) (falseLabel : String) (l : Nat) :
    Expr → Code
  | .binary mark op left right =>
    if op.isComparison then
      left.code places 0 l ++ right.code places 1 (l + left.labels) ++
        [.branch op.inverseBranch (bank 0) (bank 1) falseLabel]
    else
      (Expr.binary mark op left right).code places 0 l ++ [.branch .eq (bank 0) .zero falseLabel]
  | e => e.code places 0 l ++ [.branch .eq (bank 0) .zero falseLabel]

/-- The code of a condition up to its branch, with `n` registers in use: it evaluates the operands of
a comparison, and any other condition itself. -/
def Expr.testCode (places : List (String × Place)) (n l : Nat) : Expr → Code
  | .binary mark op left right =>
    if op.isComparison then left.code places n l ++ right.code places (n + 1) (l + left.labels)
    else (Expr.binary mark op left right).code places n l
  | e => e.code places n l

/-- The branch of a condition, which is taken if the condition does not hold. -/
def Expr.testBranch (falseLabel : String) (n : Nat) : Expr → Instruction
  | .binary _ op _ _ =>
    if op.isComparison then .branch op.inverseBranch (bank n) (bank (n + 1)) falseLabel
    else .branch .eq (bank n) .zero falseLabel
  | _ => .branch .eq (bank n) .zero falseLabel

/-- The code of a condition ends with its branch. -/
lemma Expr.conditionCode_eq {places : List (String × Place)} {falseLabel : String} {l : Nat}
    (test : Expr) :
    test.conditionCode places falseLabel l =
      test.testCode places 0 l ++ [test.testBranch falseLabel 0] := by
  cases test with
  | binary mark op left right =>
    rw [conditionCode, testCode, testBranch]
    split <;> rfl
  | int | bool | read | negate => rfl

/-- The code for an argument: its value, or its address if the parameter is a reference. -/
def Formal.argumentCode (places : List (String × Place)) (f : Formal) (argument : Expr) (l : Nat) :
    Code :=
  if f.isReference then
    match argument.variable? with
    | some v => v.code places 0 l
    | none => []
  else
    argument.code places 0 l

/-- The code that stores arguments one above the other. -/
def argumentsCode (places : List (String × Place)) : List Formal → List Expr → Int → Nat → Code
  | f :: formals, argument :: arguments, offset, l =>
    f.argumentCode places argument l ++ .store (bank 0) .sp offset ::
      argumentsCode places formals arguments (offset + Word.size) (l + argument.labels)
  | _, _, _, _ => []

/-- How many labels the code of arguments takes. -/
def argumentsLabels (arguments : List Expr) : Nat := (arguments.map Expr.labels).sum

/-- How many registers the code of arguments takes. -/
def argumentsNeed (arguments : List Expr) : Nat := (arguments.map Expr.need).foldr max 0

mutual

/-- How many labels the code of a statement takes. -/
def Stmt.labels : Stmt → Nat
  | .empty _ => 0
  | .block _ body => labelsOf body
  | .assign _ target value => target.labels + value.labels
  | .ifThen _ test thenPart => 1 + test.conditionLabels + thenPart.labels
  | .ifThenElse _ test thenPart elsePart =>
    2 + test.conditionLabels + thenPart.labels + elsePart.labels
  | .loop _ test body => 2 + test.conditionLabels + body.labels
  | .call _ _ arguments => argumentsLabels arguments

/-- How many labels the code of a list of statements takes. -/
def labelsOf : List Stmt → Nat
  | [] => 0
  | s :: rest => s.labels + labelsOf rest

end

mutual

/-- How many registers the code of a statement takes. -/
def Stmt.need : Stmt → Nat
  | .empty _ => 0
  | .block _ body => needOf body
  | .assign _ target value => max target.need (1 + value.need)
  | .ifThen _ test thenPart => max test.need thenPart.need
  | .ifThenElse _ test thenPart elsePart => max (max test.need thenPart.need) elsePart.need
  | .loop _ test body => max test.need body.need
  | .call _ _ arguments => argumentsNeed arguments

/-- How many registers the code of a list of statements takes. -/
def needOf : List Stmt → Nat
  | [] => 0
  | s :: rest => max s.need (needOf rest)

end

section
variable (places : List (String × Place)) (signature : String → Option (List Formal))

mutual

/-- The code of a statement, with `l` labels taken. -/
def Stmt.code : Stmt → Nat → Code
  | .empty _, _ => []
  | .block _ body, l => codeOf body l
  | .assign _ target value, l =>
    target.code places 0 l ++ value.code places 1 (l + target.labels) ++
      [.store (bank 1) (bank 0) 0]
  | .ifThen _ test thenPart, l =>
    test.conditionCode places (labelName l) (l + 1) ++
      thenPart.code (l + 1 + test.conditionLabels) ++ [.label (labelName l)]
  | .ifThenElse _ test thenPart elsePart, l =>
    test.conditionCode places (labelName l) (l + 2) ++
      thenPart.code (l + 2 + test.conditionLabels) ++
      [.jump (labelName (l + 1)), .label (labelName l)] ++
      elsePart.code (l + 2 + test.conditionLabels + thenPart.labels) ++
      [.label (labelName (l + 1))]
  | .loop _ test body, l =>
    .label (labelName l) :: test.conditionCode places (labelName (l + 1)) (l + 2) ++
      body.code (l + 2 + test.conditionLabels) ++
      [.jump (labelName l), .label (labelName (l + 1))]
  | .call _ callee arguments, l =>
    argumentsCode places ((signature callee).getD []) arguments 0 l ++ [.call callee]

/-- The code of a list of statements, with `l` labels taken. -/
def codeOf : List Stmt → Nat → Code
  | [], _ => []
  | s :: rest, l => s.code l ++ codeOf rest (l + s.labels)

end

end

/-! ### The code of programs -/

section
variable (names : List (String × ValueShape)) (signature : String → Option (List Formal))

/-- The bytes of the area in which a procedure passes arguments: those of the longest list of
parameters among its callees. -/
def Procedure.outgoingBytes (q : Procedure) : Nat :=
  (q.calls.map fun c => Word.size * ((signature c.1).getD []).length).foldr max 0

/-- The bytes of a procedure's frame below its frame pointer. -/
def Procedure.frameBytes (q : Procedure) : Nat :=
  q.localBytes names + q.outgoingBytes signature + 2 * Word.size

/-- The code of a procedure, with `l` labels taken. -/
def Procedure.code (q : Procedure) (l : Nat) : Code :=
  let frame : Int := q.frameBytes names signature
  let oldFramePointer : Int := q.outgoingBytes signature + Word.size
  let oldReturnAddress : Int := -(q.localBytes names + 2 * Word.size)
  let savesReturn := !q.calls.isEmpty
  [.exports q.name, .label q.name] ++
    enterCode frame oldFramePointer oldReturnAddress savesReturn ++
    codeOf (q.places names) signature q.body l ++
    leaveCode frame oldFramePointer oldReturnAddress savesReturn

/-- The code of a list of procedures, with `l` labels taken. -/
def proceduresCode : List Procedure → Nat → Code
  | [], _ => []
  | q :: rest, l => q.code names signature l ++ proceduresCode rest (l + labelsOf q.body)

end

/-- How many labels the code of a program takes. -/
def Program.labels (p : Program) : Nat := (p.procedures.map fun q => labelsOf q.body).sum

/-- How many registers the code of a program takes. -/
def Program.need (p : Program) : Nat := (p.procedures.map fun q => needOf q.body).foldr max 0

/-- The code of a program. -/
def Program.code (p : Program) : Code :=
  headCode ++ proceduresCode p.typeNames p.signature p.procedures 0

end TreeCompiler
