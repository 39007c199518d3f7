import TreeCompiler.CommandLine.Run

/-!
# A directory in memory

A `Directory` is a tree of files with texts as their contents, in which commands can run without
touching anything else. A path leads from its root to a file; nothing outside of it can be reached.
-/

namespace TreeCompiler.CommandLine

/-- The names on the way to a file. -/
abbrev Path : Type := List (List Char)

/-- What lies at the end of a path. -/
inductive Node where
  | file (content : String)
  | directory
deriving DecidableEq, Inhabited

/-- Files and directories by their paths. A directory need not be listed if something in it is. -/
structure Directory where
  nodes : List (Path × Node) := []
deriving DecidableEq, Inhabited

/-- Why a path leads nowhere. -/
inductive PathFault where
  | notFound | notDirectory | isDirectory
deriving DecidableEq, Inhabited

/-- The words of the system for a fault. -/
def PathFault.message : PathFault → String
  | notFound => "No such file or directory (os error 2)"
  | notDirectory => "Not a directory (os error 20)"
  | isDirectory => "Is a directory (os error 21)"

namespace Directory

/-- What lies at the end of a path. -/
def find? (d : Directory) (path : Path) : Option Node :=
  match path, d.nodes.lookup path with
  | [], _ => some .directory
  | _, some node => some node
  | _, none =>
    if d.nodes.any fun (longer, _) => path.isPrefixOf longer then some .directory else none

/-- A path, if it leads to a directory. -/
def requireDirectory (d : Directory) (path : Path) : Except PathFault Unit :=
  match d.find? path with
  | some .directory => .ok ()
  | some (.file _) => .error .notDirectory
  | none => .error .notFound

/-- The way from a directory along names, all of which but the last lead to directories. -/
def walk (d : Directory) (start : Path) : List (List Char) → Except PathFault Path
  | [] => .ok start
  | name :: rest => do
    d.requireDirectory start
    if name = ['.', '.'] then d.walk start.dropLast rest else d.walk (start ++ [name]) rest

/-- Whether a path leads to a directory because of how it ends. -/
def namesDirectory (path : String) : Bool :=
  match (Text.splitFrom '/' [] path.toList).getLast? with
  | some name => name.isEmpty || name = ['.']
  | none => false

/-- Where a path leads. -/
def resolve (d : Directory) (path : String) : Except PathFault Path :=
  if path.isEmpty ∨ path.toList.head? = some '/' then .error .notFound
  else d.walk [] (Text.pathNames path)

/-- Opens a file. -/
def openFile (d : Directory) (path : String) : Opened :=
  let opened : Except PathFault Opened := do
    let names ← d.resolve path
    if namesDirectory path then d.requireDirectory names
    match d.find? names with
    | some (.file content) => return .content content.toUTF8.toList
    | some .directory => return .unreadable
    | none => throw .notFound
  match opened with
  | .ok o => o
  | .error fault => .missing fault.message

/-- Sets the content of a file. -/
def setContent (d : Directory) (path : Path) (content : String) : Directory :=
  ⟨(d.nodes.filter (·.1 ≠ path)) ++ [(path, .file content)]⟩

/-- Writes a file. -/
def writeFile (d : Directory) (path content : String) : Except PathFault Directory := do
  let names ← d.resolve path
  match d.find? names with
  | some .directory => throw .isDirectory
  | some (.file _) => if namesDirectory path then throw .notDirectory
  | none => if namesDirectory path then throw .isDirectory
  return d.setContent names content

/-- The files of a directory that another one does not have with the same content. -/
def newFiles (d old : Directory) : List (Path × String) :=
  d.nodes.filterMap fun (path, node) =>
    match node with
    | .file content => if old.find? path = some node then none else some (path, content)
    | .directory => none

end Directory

/-- How a command reaches the files of a directory in memory. -/
def directoryAccess : FileAccess (StateM Directory) where
  read path := return (← get).openFile path
  write path content := do
    match (← get).writeFile path content with
    | .ok d =>
      set d
      return .ok ()
    | .error fault => return .error fault.message

/-- Runs a command in a directory. -/
def Directory.run (d : Directory) (arguments : List String) : Outcome × Directory :=
  (CommandLine.run directoryAccess arguments).run d

end TreeCompiler.CommandLine
