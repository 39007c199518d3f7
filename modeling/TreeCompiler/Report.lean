import TreeCompiler.Frame.Picture

/-!
# Reports on a program

A scope is listed as a heading and one row for each symbol, in the order of declaration: the name,
the kind, the type, whether a variable is a reference, and its offset.

One report lists the scope of every procedure; the other tells the sizes of the regions of every
procedure's frame and shows its picture. Procedures that are not in the tables are left out.
-/

namespace TreeCompiler

/-! ### Listing a scope -/

/-- A parameter in the row of its procedure. -/
def Slot.listParameter (types : TypeTable) (s : Slot) : Except UnknownType String := do
  let type ← types.name s.type
  return if s.isReference then "ref " ++ type else type

/-- The cells of a symbol's row. -/
def Symbol.cells (types : TypeTable) (s : Symbol) : Except UnknownType (List String) :=
  match s.entry with
  | .type id => do
    return [s.name, "type", ← types.name id, "-", "-"]
  | .var slot => do
    return [s.name, "var", ← types.name slot.type, if slot.isReference then "true" else "false",
      Word.showOption slot.offset]
  | .procedure p => do
    let parameters ← p.parameters.mapM (Slot.listParameter types)
    return [s.name, "proc", "(" ++ ", ".intercalate parameters ++ ")", "-", "-"]

/-- A row of the listing. -/
def listingRow (cells : List String) : String := "\t" ++ " | ".intercalate cells ++ "\n"

/-- The listing of a scope. -/
def Scope.listing (types : TypeTable) (s : Scope) : Except UnknownType String := do
  let rows ← s.symbols.mapM fun symbol => listingRow <$> symbol.cells types
  return listingRow ["Name", "Kind", "Type", "Ref", "Offset"] ++ String.join rows

/-! ### Reports -/

/-- The procedures of a program that are in the tables, with their entries. -/
def Program.knownProcedures (p : Program) (t : Tables) : List (Procedure × ProcedureEntry) :=
  p.procedures.filterMap fun q => (t.procedure? q.name).map fun entry => (q, entry)

/-- The listing of every procedure's scope. -/
def Program.scopeReport (p : Program) (t : Tables) : Except UnknownType String := do
  let parts ← (p.knownProcedures t).mapM fun (q, entry) => do
    let listing ← (t.scope entry.scope).listing t.types
    return "Symbol table at end of procedure '" ++ q.name ++ "':\n" ++ listing ++ "\n"
  return String.join parts

/-- The size of the area for outgoing arguments in a report: -1 if there are no calls. -/
def showOutgoing : Option OutgoingArea → String
  | none => "NULL"
  | some .noCalls => "-1"
  | some (.bytes size) => toString size

/-- The report on a procedure's frame. -/
def Procedure.frameReport (p : Procedure) (entry : ProcedureEntry) (own : Scope) : String :=
  let layout := entry.layout
  let picture := (Text.lines (drawPicture (p.picture entry own))).map fun line =>
    "    " ++ line ++ "\n"
  "Variable allocation for procedure '" ++ p.name ++ "':\n" ++
    "  - size of argument area = " ++ Word.showOption layout.arguments ++ "\n" ++
    "  - size of localvar area = " ++ Word.showOption layout.locals ++ "\n" ++
    "  - size of outgoing area = " ++ showOutgoing layout.outgoing ++ "\n" ++
    "  - frame size = " ++ showKnown layout.frameSize ++ "\n" ++
    "\n  Stack layout:\n" ++ String.join picture ++ "\n"

/-- The report on every procedure's frame. -/
def Program.frameReport (p : Program) (t : Tables) : String :=
  String.join <| (p.knownProcedures t).map fun (q, entry) =>
    q.frameReport entry (t.scope entry.scope)

end TreeCompiler
