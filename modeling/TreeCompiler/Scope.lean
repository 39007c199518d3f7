import TreeCompiler.Frame.Layout
import TreeCompiler.TypeTable

/-!
# Scopes and symbols

A scope binds names, in the order of their declaration, each at most once, and is enclosed by
another scope unless it is the global one. `Tables` holds the scopes and the types of a program.
A name is looked up along the chain of enclosing scopes (`Tables.chain`), and the innermost scope
that binds it wins.

The primitive types and the procedures of the runtime library stand in the global scope before a
program's own definitions are entered (`Tables.predefined`).
-/

namespace TreeCompiler

/-- A handle of a scope. -/
structure ScopeId where
  index : Nat
deriving DecidableEq, Inhabited

/-- The scope that encloses all others. -/
def ScopeId.global : ScopeId := ⟨0⟩

/-- A variable or a formal parameter: its type, whether it stands for its argument instead of a
copy, and where it lies from the frame pointer once that is known. -/
structure Slot where
  type : TypeId
  isReference : Bool
  offset : Option Int := none
deriving DecidableEq, Inhabited

/-- The bytes that a parameter takes in the argument area: a reference is passed as an address. -/
def Slot.passingSize (s : Slot) (types : TypeTable) : Nat :=
  if s.isReference then Word.size else types.byteSize s.type

/-- A procedure as its callers know it, with the scope of its own names. -/
structure ProcedureEntry where
  scope : ScopeId
  parameters : List Slot
  layout : FrameLayout := {}
  isPredefined : Bool := false
deriving DecidableEq, Inhabited

/-- What a name is bound to. -/
inductive Entry where
  | type (id : TypeId)
  | var (slot : Slot)
  | procedure (procedure : ProcedureEntry)
deriving DecidableEq, Inhabited

/-- A name and what it is bound to. -/
structure Symbol where
  name : String
  entry : Entry
deriving DecidableEq, Inhabited

/-- The names declared in one scope, in order, and the scope around it. -/
structure Scope where
  parent : Option ScopeId
  symbols : List Symbol := []
deriving DecidableEq, Inhabited

namespace Scope

/-- What the scope itself binds a name to. -/
def find? (s : Scope) (name : String) : Option Entry :=
  (s.symbols.find? (·.name == name)).map Symbol.entry

/-- The variable that the scope itself binds a name to. -/
def findVar? (s : Scope) (name : String) : Option Slot :=
  match s.find? name with
  | some (.var slot) => some slot
  | _ => none

/-- Declares a name that the scope does not bind yet. -/
def enter (s : Scope) (name : String) (entry : Entry) : Option Scope :=
  if (s.find? name).isSome then none else some { s with symbols := s.symbols ++ [⟨name, entry⟩] }

/-- Changes the first symbol of a name in a list of symbols. -/
def modifySymbol (name : String) (f : Entry → Entry) : List Symbol → List Symbol
  | [] => []
  | s :: rest =>
    if s.name == name then { s with entry := f s.entry } :: rest
    else s :: modifySymbol name f rest

/-- Changes what the scope itself binds a name to. -/
def modify (s : Scope) (name : String) (f : Entry → Entry) : Scope :=
  { s with symbols := modifySymbol name f s.symbols }

end Scope

/-- The types and the scopes of a program; the first scope is the global one. -/
structure Tables where
  types : TypeTable
  scopes : List Scope
deriving DecidableEq, Inhabited

namespace Tables

/-- The tables with the primitive types and an empty global scope. -/
def initial : Tables := ⟨{}, [{ parent := none }]⟩

/-- The scope under a handle. -/
def scope? (t : Tables) (id : ScopeId) : Option Scope := t.scopes[id.index]?

/-- The scope under a handle; one that does not exist binds nothing. -/
def scope (t : Tables) (id : ScopeId) : Scope := (t.scope? id).getD { parent := none }

/-- The first `n` scopes of the chain that starts at a scope and goes outward. -/
def chainUpTo (t : Tables) : Nat → ScopeId → List Scope
  | 0, _ => []
  | n + 1, id =>
    match t.scope? id with
    | none => []
    | some s =>
      match s.parent with
      | none => [s]
      | some parent => s :: t.chainUpTo n parent

/-- The scopes around a place, from the innermost one outward. A scope is enclosed by an older one,
so that the chain is no longer than the handle tells. -/
def chain (t : Tables) (id : ScopeId) : List Scope := t.chainUpTo (id.index + 1) id

/-- What a name means in a scope: the binding of the innermost scope around that has one. -/
def lookup (t : Tables) (id : ScopeId) (name : String) : Option Entry :=
  (t.chain id).findSome? (·.find? name)

/-- The procedure that the global scope binds a name to. -/
def procedure? (t : Tables) (name : String) : Option ProcedureEntry :=
  match (t.scope .global).find? name with
  | some (.procedure p) => some p
  | _ => none

/-- Adds an empty scope inside another one. -/
def newScope (t : Tables) (parent : ScopeId) : ScopeId × Tables :=
  (⟨t.scopes.length⟩, { t with scopes := t.scopes ++ [{ parent := some parent }] })

/-- Changes a scope. -/
def modifyScope (t : Tables) (id : ScopeId) (f : Scope → Scope) : Tables :=
  { t with scopes := t.scopes.modify id.index f }

/-- Declares a name in a scope that does not bind it yet. -/
def enter (t : Tables) (id : ScopeId) (name : String) (entry : Entry) : Option Tables :=
  ((t.scope id).enter name entry).map fun s => t.modifyScope id fun _ => s

/-- Changes what a scope itself binds a name to. -/
def modifyEntry (t : Tables) (id : ScopeId) (name : String) (f : Entry → Entry) : Tables :=
  t.modifyScope id (·.modify name f)

/-- Sets the offset of a variable that a scope itself binds. -/
def setOffset (t : Tables) (id : ScopeId) (name : String) (offset : Int) : Tables :=
  t.modifyEntry id name fun
    | .var slot => .var { slot with offset := some offset }
    | entry => entry

/-- Changes a procedure of the global scope. -/
def modifyProcedure (t : Tables) (name : String) (f : ProcedureEntry → ProcedureEntry) : Tables :=
  t.modifyEntry .global name fun
    | .procedure p => .procedure (f p)
    | entry => entry

end Tables

/-! ### Names that every program can use -/

/-- A procedure of the runtime library: its name, and for each of its parameters, which are all
integers, whether it is a reference. -/
structure RuntimeProcedure where
  name : String
  references : List Bool
deriving DecidableEq, Inhabited

/-- The runtime library. -/
def runtimeProcedures : List RuntimeProcedure :=
  [⟨"printi", [false]⟩, ⟨"printc", [false]⟩, ⟨"readi", [true]⟩, ⟨"readc", [true]⟩,
    ⟨"exit", [false]⟩, ⟨"time", [true]⟩, ⟨"clearAll", [false]⟩,
    ⟨"setPixel", [false, false, false]⟩,
    ⟨"drawLine", [false, false, false, false, false]⟩,
    ⟨"drawCircle", [false, false, false, false]⟩]

/-- Where control goes when an array index is out of range. -/
def indexErrorLabel : String := "_indexError"

namespace Tables

/-- Enters a name into the global scope, where it must be new. -/
def enterGlobal (t : Tables) (name : String) (entry : Entry) : Tables :=
  (t.enter .global name entry).getD t

/-- Enters a procedure of the runtime library, with an empty scope of its own. -/
def enterRuntime (t : Tables) (p : RuntimeProcedure) : Tables :=
  let (scope, t) := t.newScope .global
  t.enterGlobal p.name <| .procedure
    { scope
      parameters := p.references.map fun isReference => { type := .int, isReference }
      isPredefined := true }

/-- The tables with the primitive types and the runtime library in the global scope. -/
def predefined : Tables :=
  runtimeProcedures.foldl enterRuntime
    ((initial.enterGlobal "int" (.type .int)).enterGlobal "bool" (.type .bool))

end Tables

end TreeCompiler
