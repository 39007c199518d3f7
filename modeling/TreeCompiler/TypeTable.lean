import TreeCompiler.Word

/-!
# The table of types

A type is a handle into a table: 0 is `int`, 1 is `bool`, and every array type written in a program
adds one more, so that two arrays are the same type only if they come from the same place. The
table holds its array types newest first; an array's elements are of a type that was there before
it, and therefore every walk from an array to its base goes down the list and ends.
-/

namespace TreeCompiler

/-- A handle of a type: its place in the table. Handles are assumed not to wrap around, as words of
32 bits would in a table of `2 ^ 32` types; a program with fewer nodes than that has fewer types too
(`Program.counters_fit`). -/
structure TypeId where
  index : Nat
deriving DecidableEq, Inhabited

namespace TypeId

/-- The type of integers. -/
def int : TypeId := ⟨0⟩

/-- The type of truth values. -/
def bool : TypeId := ⟨1⟩

end TypeId

/-- A type of arrays: how many elements, of which type, and how many bytes in all. -/
structure ArrayType where
  length : Nat
  base : TypeId
  byteSize : Nat
deriving DecidableEq, Inhabited

/-- The array types of a program, newest first; the two primitive types are always there. -/
structure TypeTable where
  arrays : List ArrayType := []
deriving DecidableEq, Inhabited

/-- What a handle stands for. -/
inductive TypeInfo where
  | int
  | bool
  | array (array : ArrayType)
deriving DecidableEq, Inhabited

/-- A handle that is not in the table. -/
structure UnknownType where
  id : TypeId
deriving DecidableEq, Inhabited

/-- What an error says about a handle that is not in the table. -/
def UnknownType.message (u : UnknownType) : String :=
  "Type #" ++ toString u.id.index ++ " not found in the type table"

namespace TypeTable

/-- The number of primitive types. -/
def primitives : Nat := 2

/-- The number of types in the table. -/
def size (t : TypeTable) : Nat := primitives + t.arrays.length

/-- The array that a list, newest first, holds under a handle. -/
def findArray (id : TypeId) : List ArrayType → Option ArrayType
  | [] => none
  | a :: older => if id.index = primitives + older.length then some a else findArray id older

/-- The array type under a handle. -/
def array? (t : TypeTable) (id : TypeId) : Option ArrayType := findArray id t.arrays

/-- What a handle stands for. -/
def get? (t : TypeTable) (id : TypeId) : Option TypeInfo :=
  if id = .int then some .int
  else if id = .bool then some .bool
  else (t.array? id).map .array

/-- Whether a handle is in the table. -/
def contains (t : TypeTable) (id : TypeId) : Bool := id.index < t.size

/-- Whether a handle stands for an array type. -/
def isArray (t : TypeTable) (id : TypeId) : Bool := (t.array? id).isSome

/-- The bytes that a value of a type takes; a handle that is not in the table takes none. -/
def byteSize (t : TypeTable) (id : TypeId) : Nat :=
  match t.get? id with
  | some (.array a) => a.byteSize
  | some _ => Word.size
  | none => 0

/-- Adds the type of arrays of `length` elements of type `base`, unless it takes more bytes, or has
more elements, than a signed word can count. -/
def addArray (t : TypeTable) (base : TypeId) (length : Nat) : Option (TypeId × TypeTable) :=
  let byteSize := length * t.byteSize base
  if (length : Int) ≤ Word.max ∧ (byteSize : Int) ≤ Word.max then
    some (⟨t.size⟩, ⟨⟨length, base, byteSize⟩ :: t.arrays⟩)
  else
    none

/-- The name of a type among a list of arrays, newest first: the base of an array is looked for
among the older ones. -/
def nameIn : List ArrayType → TypeId → Except UnknownType String
  | [], id =>
    if id = .int then .ok "int" else if id = .bool then .ok "bool" else .error ⟨id⟩
  | a :: older, id =>
    if id.index = primitives + older.length then
      (nameIn older a.base).map fun base => "array [" ++ toString a.length ++ "] of " ++ base
    else
      nameIn older id

/-- The name of a type, as error messages and listings show it. -/
def name (t : TypeTable) (id : TypeId) : Except UnknownType String := nameIn t.arrays id

end TypeTable

end TreeCompiler
