import TreeCompiler.Tree.Basic
import TreeCompiler.TypeTable

/-!
# Errors of the passes

Every pass has its own causes of failure. What they share is a message, which may name types and
therefore needs the table of types, the status that the command line ends with, and the line of the
source text that is to blame.

A `SemanticError` is a fault of the program itself, and its status tells which rule was broken. A
frame can be too large for the program to be run, and an expression can need more registers than
there are. All the other causes of a `FrameError` or an `EmissionError` mean that the tables or the
types do not belong to the program; they cannot arise after the passes before.
-/

namespace TreeCompiler

/-- What every cause of failure can tell. -/
class Diagnostic (ε : Type) where
  /-- The status that the command line ends with. -/
  exitCode : ε → Nat
  /-- The message, unless it names a type that is not in the table. -/
  message : TypeTable → ε → Except UnknownType String

/-- A cause and the line to blame, if it can be tied to one. -/
structure Located (ε : Type) where
  line : Option UInt32
  cause : ε
deriving DecidableEq, Inhabited

namespace Located

variable {ε : Type}

/-- A cause that no line is to blame for. -/
def nowhere (cause : ε) : Located ε := ⟨none, cause⟩

/-- A cause at a line. -/
def atLine (line : UInt32) (cause : ε) : Located ε := ⟨some line, cause⟩

/-- The message behind the line, if there is one. -/
def message [Diagnostic ε] (types : TypeTable) (e : Located ε) : Except UnknownType String := do
  let text ← Diagnostic.message types e.cause
  return match e.line with
    | some line => "L" ++ toString line.toNat ++ ": " ++ text
    | none => text

/-- The status that the command line ends with. -/
def exitCode [Diagnostic ε] (e : Located ε) : Nat := Diagnostic.exitCode e.cause

end Located

/-! ### Faults of declarations and bodies -/

/-- Why a program is refused. -/
inductive SemanticError where
  | undefinedIdentifier (name : String)
  | notAType (name : String)
  | alreadyDeclared (name : String)
  | mustBeReferenceParameter (name : String)
  | assignmentHasDifferentTypes (target value : TypeId)
  | assignmentRequiresInteger (found : TypeId)
  | ifConditionMustBeBoolean (found : TypeId)
  | whileConditionMustBeBoolean (found : TypeId)
  | notAProcedure (name : String)
  | argumentTypeMismatch (name : String) (position : Nat) (expected found : TypeId)
  | argumentMustBeAVariable (name : String) (position : Nat)
  | argumentCountMismatch (name : String) (expected found : Nat)
  | binaryOperatorTypeMismatch (op : BinaryOp) (left right : TypeId)
  | unaryOperatorTypeMismatch (found : TypeId)
  | notAVariable (name : String)
  | indexingNonArray (found : TypeId)
  | indexMustBeInteger (found : TypeId)
  | mainMissing
  | mainNotAProcedure
  | mainMustNotHaveParameters
  | arrayTooLarge (length : UInt32)
deriving DecidableEq, Inhabited

namespace SemanticError

/-- The status of each rule. -/
def exitCode : SemanticError → Nat
  | undefinedIdentifier _ => 101
  | notAType _ => 102
  | alreadyDeclared _ => 103
  | mustBeReferenceParameter _ => 104
  | assignmentHasDifferentTypes _ _ => 108
  | assignmentRequiresInteger _ => 108
  | ifConditionMustBeBoolean _ => 110
  | whileConditionMustBeBoolean _ => 111
  | notAProcedure _ => 113
  | argumentTypeMismatch _ _ _ _ => 114
  | argumentMustBeAVariable _ _ => 115
  | argumentCountMismatch _ _ _ => 116
  | binaryOperatorTypeMismatch _ _ _ => 118
  | unaryOperatorTypeMismatch _ => 119
  | notAVariable _ => 122
  | indexingNonArray _ => 123
  | indexMustBeInteger _ => 124
  | mainMissing => 125
  | mainNotAProcedure => 126
  | mainMustNotHaveParameters => 127
  | arrayTooLarge _ => 128

/-- A name in quotation marks. -/
def quote (name : String) : String := "'" ++ name ++ "'"

/-- The message of each error; types are shown by their names. Where two types are shown, the one
that comes first in the text is looked up first. -/
def message (types : TypeTable) : SemanticError → Except UnknownType String
  | undefinedIdentifier name => return "undefined identifier " ++ quote name
  | notAType name => return "identifier " ++ quote name ++ " is not a type"
  | alreadyDeclared name =>
    return "identifier " ++ quote name ++ " is already declared in this scope"
  | mustBeReferenceParameter name =>
    return "parameter " ++ quote name ++ " has an array type and must be a reference parameter"
  | assignmentHasDifferentTypes target value => do
    let target ← types.name target
    let value ← types.name value
    return "assignment has different types: " ++ target ++ " := " ++ value
  | assignmentRequiresInteger found => do
    return "assignment requires an integer variable, found " ++ (← types.name found)
  | ifConditionMustBeBoolean found => do
    return "'if' test expression must be of type bool, found " ++ (← types.name found)
  | whileConditionMustBeBoolean found => do
    return "'while' test expression must be of type bool, found " ++ (← types.name found)
  | notAProcedure name => return "call of non-procedure " ++ quote name
  | argumentTypeMismatch name position expected found => do
    let found ← types.name found
    let expected ← types.name expected
    return "argument " ++ toString position ++ " of call to " ++ quote name ++ " has type " ++
      found ++ ", expected " ++ expected
  | argumentMustBeAVariable name position =>
    return "argument " ++ toString position ++ " of call to " ++ quote name ++
      " must be a variable"
  | argumentCountMismatch name expected found =>
    return "call to " ++ quote name ++ " has " ++ toString found ++ " arguments, expected " ++
      toString expected
  | binaryOperatorTypeMismatch op left right => do
    let left ← types.name left
    let right ← types.name right
    return "operator " ++ op.symbol ++ " cannot be applied to " ++ left ++ " and " ++ right
  | unaryOperatorTypeMismatch found => do
    return "operator - cannot be applied to " ++ (← types.name found)
  | notAVariable name => return "identifier " ++ quote name ++ " is not a variable"
  | indexingNonArray found => do
    return "illegal indexing of a non-array of type " ++ (← types.name found)
  | indexMustBeInteger found => do
    return "illegal indexing with a non-integer of type " ++ (← types.name found)
  | mainMissing => return "procedure 'main' is missing"
  | mainNotAProcedure => return "'main' is not a procedure"
  | mainMustNotHaveParameters => return "procedure 'main' must not have any parameters"
  | arrayTooLarge length =>
    return "array of " ++ toString length.toNat ++ " elements does not fit into a stack frame"

end SemanticError

instance : Diagnostic SemanticError := ⟨SemanticError.exitCode, SemanticError.message⟩

/-! ### Laying out stack frames -/

/-- Why frames cannot be laid out. -/
inductive FrameError where
  /-- A parameter's own offset differs from the one in its procedure's list of parameters. -/
  | inconsistentOffset (procedure parameter : String) (own listed : Option Int)
  | unknownProcedure (name : String)
  | unknownVariable (procedure name : String)
  | missingArgumentArea (callee : String)
  | frameTooLarge (procedure : String)
deriving DecidableEq, Inhabited

namespace FrameError

/-- The message of each error. -/
def message : FrameError → String
  | inconsistentOffset procedure parameter own listed =>
    "internal error: parameter '" ++ parameter ++ "' of '" ++ procedure ++
      "' has inconsistent offsets " ++ Word.showOption own ++ " and " ++ Word.showOption listed
  | unknownProcedure name =>
    "internal error: procedure '" ++ name ++ "' is not in the symbol table"
  | unknownVariable procedure name =>
    "internal error: '" ++ name ++ "' is not a variable of '" ++ procedure ++ "'"
  | missingArgumentArea callee =>
    "internal error: argument area of '" ++ callee ++ "' was not computed"
  | frameTooLarge procedure =>
    "stack frame of '" ++ procedure ++ "' does not fit into 32 bit offsets"

/-- All of them end with the same status. -/
def exitCode (_ : FrameError) : Nat := 150

end FrameError

instance : Diagnostic FrameError := ⟨FrameError.exitCode, fun _ e => .ok e.message⟩

/-! ### Emitting code -/

/-- Why code cannot be emitted. -/
inductive EmissionError where
  | registerOverflow
  | registerUnderflow
  | unknownSymbol (name : String)
  | missingOffset (name : String)
  | missingLayout (procedure : String)
  | missingType (node : Nat)
  | referenceArgumentNotVariable (callee : String)
deriving DecidableEq, Inhabited

namespace EmissionError

/-- The message of each error. -/
def message : EmissionError → String
  | registerOverflow => "expression too complicated, running out of registers"
  | registerUnderflow => "internal error: released a register which was not in use"
  | unknownSymbol name => "internal error: '" ++ name ++ "' is not in the symbol table"
  | missingOffset name => "internal error: '" ++ name ++ "' has not been allocated"
  | missingLayout procedure =>
    "internal error: stack layout of '" ++ procedure ++ "' is incomplete"
  | missingType node => "internal error: node #" ++ toString node ++ " has no type"
  | referenceArgumentNotVariable callee =>
    "internal error: reference argument of call to '" ++ callee ++ "' is not a variable"

/-- Too few registers is the program's fault; the rest is not. -/
def exitCode : EmissionError → Nat
  | registerOverflow => 140
  | _ => 150

end EmissionError

instance : Diagnostic EmissionError := ⟨EmissionError.exitCode, fun _ e => .ok e.message⟩

end TreeCompiler
