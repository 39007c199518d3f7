import TreeCompiler.Word

/-!
# ECO32 assembly

An assembly file is a list of directives, labels and instructions, one to a line. Every line but a
label starts with a tab; the operands follow the mnemonic behind another one.
-/

namespace TreeCompiler

/-- A general purpose register. -/
structure Register where
  number : UInt8
deriving DecidableEq, Inhabited

namespace Register

/-- The register that always holds 0. -/
def zero : Register := ⟨0⟩

/-- The frame pointer. -/
def fp : Register := ⟨25⟩

/-- The stack pointer. -/
def sp : Register := ⟨29⟩

/-- The register that a call leaves its return address in. -/
def ra : Register := ⟨31⟩

/-- The first register of the bank in which expressions are evaluated. -/
def firstFree : Register := ⟨8⟩

/-- The last register of the bank in which expressions are evaluated. -/
def lastFree : Register := ⟨23⟩

/-- How a register is written. -/
def text (r : Register) : String := "$" ++ toString r.number.toNat

end Register

/-- The last operand of an arithmetic instruction. -/
inductive Operand where
  | register (register : Register)
  | integer (value : Int)
deriving DecidableEq, Inhabited

/-- How an operand is written. -/
def Operand.text : Operand → String
  | .register r => r.text
  | .integer i => toString i

/-- The instructions that compute a word from two. -/
inductive ArithOp where
  | add | sub | mul | div | and | or
deriving DecidableEq, Inhabited

/-- The mnemonic of an arithmetic instruction. -/
def ArithOp.mnemonic : ArithOp → String
  | .add => "add"
  | .sub => "sub"
  | .mul => "mul"
  | .div => "div"
  | .and => "and"
  | .or => "or"

/-- The comparisons that a branch can depend on; the last one takes its words as unsigned. -/
inductive BranchOp where
  | eq | ne | lt | le | gt | ge | geUnsigned
deriving DecidableEq, Inhabited

/-- The mnemonic of a branch. -/
def BranchOp.mnemonic : BranchOp → String
  | .eq => "beq"
  | .ne => "bne"
  | .lt => "blt"
  | .le => "ble"
  | .gt => "bgt"
  | .ge => "bge"
  | .geUnsigned => "bgeu"

/-- A line of an assembly file. -/
inductive Instruction where
  | imports (name : String)
  | exports (name : String)
  | code
  | align (boundary : Nat)
  | label (name : String)
  | arith (op : ArithOp) (target left : Register) (right : Operand)
  | load (target base : Register) (offset : Int)
  | store (source base : Register) (offset : Int)
  | branch (op : BranchOp) (left right : Register) (target : String)
  | jump (target : String)
  | call (target : String)
  | jumpRegister (register : Register)
deriving DecidableEq, Inhabited

namespace Instruction

/-- A mnemonic and three operands. -/
def three (mnemonic a b c : String) : String :=
  "\t" ++ mnemonic ++ "\t" ++ a ++ "," ++ b ++ "," ++ c

/-- The text of a line. -/
def text : Instruction → String
  | imports name => "\t.import\t" ++ name
  | exports name => "\t.export\t" ++ name
  | code => "\t.code"
  | align boundary => "\t.align\t" ++ toString boundary
  | label name => name ++ ":"
  | arith op target left right => three op.mnemonic target.text left.text right.text
  | load target base offset => three "ldw" target.text base.text (toString offset)
  | store source base offset => three "stw" source.text base.text (toString offset)
  | branch op left right target => three op.mnemonic left.text right.text target
  | jump target => "\tj\t" ++ target
  | call target => "\tjal\t" ++ target
  | jumpRegister register => "\tjr\t" ++ register.text

/-- Whether an empty line comes before the line, which sets off the imports and each procedure. -/
def startsSection : Instruction → Bool
  | code | exports _ => true
  | _ => false

/-- The line with its end, and with the empty line before it. -/
def line (i : Instruction) : String := (if i.startsSection then "\n" else "") ++ i.text ++ "\n"

end Instruction

/-- The text of an assembly file. -/
def assemblyText (code : List Instruction) : String := String.join (code.map Instruction.line)

end TreeCompiler
