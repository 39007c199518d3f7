import Mathlib.Tactic.Lemma
import TreeCompiler.Tree.Basic
import TreeCompiler.TypeTable

/-!
# What types stand for

A handle stands for a shape: an integer, a truth value, or so many elements of a shape.  The shape
of a handle is found by following the bases of arrays through the table; that of a written type is
found by following the names of types through the program.  In a well-formed table every array has
a shape, and takes a word for each of the cells of its shape.
-/

namespace TreeCompiler

/-- What a value of a type consists of. -/
inductive ValueShape where
  | int
  | bool
  | array (length : Nat) (element : ValueShape)
deriving DecidableEq, Inhabited

namespace ValueShape

/-- How many integers and truth values there are in a value. -/
def cells : ValueShape → Nat
  | int | bool => 1
  | array length element => length * element.cells

/-- The shapes that are not arrays. -/
def isScalar : ValueShape → Bool
  | int | bool => true
  | array _ _ => false

/-- The lengths of the arrays in a shape and the bytes that they take are signed words. -/
def Fits : ValueShape → Prop
  | int | bool => True
  | array length element =>
    element.Fits ∧ (length : Int) ≤ Word.max ∧
      ((Word.size * (length * element.cells) : Nat) : Int) ≤ Word.max

/-- A value that is not an array is a single cell. -/
lemma cells_of_isScalar {s : ValueShape} (h : s.isScalar = true) : s.cells = 1 := by
  cases s with
  | int => rfl
  | bool => rfl
  | array => cases h

/-- A value that is not an array has a cell. -/
lemma cells_pos_of_isScalar {s : ValueShape} (h : s.isScalar = true) : 0 < s.cells := by
  rw [cells_of_isScalar h]
  exact Nat.one_pos

end ValueShape

/-! ### Shapes of handles -/

namespace TypeTable

/-- The shape of a handle among a list of arrays, newest first. -/
def shapeIn : List ArrayType → TypeId → Option ValueShape
  | [], id => if id = .int then some .int else if id = .bool then some .bool else none
  | a :: older, id =>
    if id.index = primitives + older.length then (shapeIn older a.base).map (.array a.length)
    else shapeIn older id

/-- The shape of a handle. -/
def shape? (t : TypeTable) (id : TypeId) : Option ValueShape := shapeIn t.arrays id

/-- Every array is made of elements of an older type, and its size is that of its elements. -/
def WellFormedIn : List ArrayType → Prop
  | [] => True
  | a :: older => WellFormedIn older ∧ ∃ s, shapeIn older a.base = some s ∧
      a.byteSize = Word.size * (a.length * s.cells) ∧ (a.byteSize : Int) ≤ Word.max ∧
      (a.length : Int) ≤ Word.max

/-- All the arrays of a table are made of older types and have the sizes of their shapes. -/
def WellFormed (t : TypeTable) : Prop := WellFormedIn t.arrays

/-- The table of the primitive types is well-formed. -/
lemma wellFormed_empty : WellFormed {} := trivial

/-- A handle with a shape is in the table. -/
lemma index_lt_of_shapeIn {l : List ArrayType} {id : TypeId} {s : ValueShape}
    (h : shapeIn l id = some s) : id.index < primitives + l.length := by
  induction l generalizing id s with
  | nil =>
    unfold shapeIn at h
    split at h
    · rename_i hid
      subst hid
      decide
    · split at h
      · rename_i hid
        subst hid
        decide
      · cases h
  | cons a older ih =>
    rw [shapeIn] at h
    split at h
    · rename_i hid
      rw [hid, List.length_cons]
      exact Nat.lt_succ_self _
    · exact Nat.lt_succ_of_lt (ih h)

/-- Adding an array leaves the shapes of the older handles as they are. -/
lemma shapeIn_cons {l : List ArrayType} {id : TypeId} {s : ValueShape} (h : shapeIn l id = some s)
    (a : ArrayType) : shapeIn (a :: l) id = some s := by
  rw [shapeIn, if_neg (Nat.ne_of_lt (index_lt_of_shapeIn h))]
  exact h

/-- The shapes of the primitive types. -/
@[simp] lemma shapeIn_int (l : List ArrayType) : shapeIn l .int = some .int := by
  induction l with
  | nil => rfl
  | cons a older ih => exact shapeIn_cons ih a

@[simp] lemma shapeIn_bool (l : List ArrayType) : shapeIn l .bool = some .bool := by
  induction l with
  | nil => rfl
  | cons a older ih => exact shapeIn_cons ih a

/-- An array found under a handle is made of elements of a shape, and gives the handle its shape and
its size. -/
lemma findArray_spec {l : List ArrayType} (hl : WellFormedIn l) {id : TypeId} {a : ArrayType}
    (h : findArray id l = some a) : ∃ s, shapeIn l a.base = some s ∧
      shapeIn l id = some (.array a.length s) ∧ a.byteSize = Word.size * (a.length * s.cells) ∧
      (a.byteSize : Int) ≤ Word.max ∧ (a.length : Int) ≤ Word.max := by
  induction l with
  | nil => cases h
  | cons b older ih =>
    obtain ⟨holder, s, hs, hsize, hmax, hlength⟩ := hl
    rw [findArray] at h
    split at h
    · rename_i hid
      cases h
      refine ⟨s, shapeIn_cons hs _, ?_, hsize, hmax, hlength⟩
      rw [shapeIn, if_pos hid, hs]
      rfl
    · obtain ⟨s', hbase, hshape, hrest⟩ := ih holder h
      exact ⟨s', shapeIn_cons hbase b, shapeIn_cons hshape b, hrest⟩

/-- The shape of an array is that of the array found under the handle. -/
lemma exists_findArray_of_shapeIn {l : List ArrayType} {id : TypeId} {n : Nat} {s : ValueShape}
    (h : shapeIn l id = some (.array n s)) : ∃ a, findArray id l = some a := by
  induction l with
  | nil =>
    unfold shapeIn at h
    split at h
    · cases h
    · split at h <;> cases h
  | cons b older ih =>
    rw [shapeIn] at h
    rw [findArray]
    split at h
    · rename_i hid
      exact ⟨_, if_pos hid⟩
    · rename_i hid
      rw [if_neg hid]
      exact ih h

/-- The scalar shapes are those of the primitive handles. -/
lemma eq_of_shapeIn_isScalar {l : List ArrayType} {id : TypeId} {s : ValueShape}
    (h : shapeIn l id = some s) (hs : s.isScalar = true) :
    (id = .int ∧ s = .int) ∨ (id = .bool ∧ s = .bool) := by
  induction l with
  | nil =>
    unfold shapeIn at h
    split at h
    · rename_i hid
      cases h
      exact .inl ⟨hid, rfl⟩
    · split at h
      · rename_i hid
        cases h
        exact .inr ⟨hid, rfl⟩
      · cases h
  | cons a older ih =>
    rw [shapeIn] at h
    split at h
    · obtain ⟨s', -, rfl⟩ := Option.map_eq_some_iff.mp h
      cases hs
    · exact ih h

variable {t t' : TypeTable} {id : TypeId} {s : ValueShape}

/-- The handle of the integers stands for them. -/
@[simp] lemma shape?_int : t.shape? .int = some .int := shapeIn_int t.arrays

/-- The handle of the truth values stands for them. -/
@[simp] lemma shape?_bool : t.shape? .bool = some .bool := shapeIn_bool t.arrays

/-- What is known about an array that is found in a well-formed table. -/
lemma WellFormed.array?_spec (ht : t.WellFormed) {a : ArrayType} (h : t.array? id = some a) :
    ∃ s, t.shape? a.base = some s ∧ t.shape? id = some (.array a.length s) ∧
      a.byteSize = Word.size * (a.length * s.cells) ∧ (a.byteSize : Int) ≤ Word.max ∧
      (a.length : Int) ≤ Word.max :=
  findArray_spec ht h

/-- The shapes of the primitive types are scalar. -/
lemma isScalar_of_primitive (hid : id = .int ∨ id = .bool) (h : t.shape? id = some s) :
    s.isScalar = true := by
  rcases hid with rfl | rfl
  · rw [shape?_int] at h
    cases h
    rfl
  · rw [shape?_bool] at h
    cases h
    rfl

/-- A handle of the shape of an array is that of an array in the table. -/
lemma exists_array?_of_shape? {n : Nat} (h : t.shape? id = some (.array n s)) :
    ∃ a, t.array? id = some a :=
  exists_findArray_of_shapeIn h

/-- In a well-formed table the types that are not arrays are those of scalar shapes. -/
lemma WellFormed.isArray_eq (ht : t.WellFormed) (h : t.shape? id = some s) :
    t.isArray id = !s.isScalar := by
  unfold isArray
  cases ha : t.array? id with
  | some a =>
    obtain ⟨s', -, hshape, -⟩ := ht.array?_spec ha
    rw [h] at hshape
    cases hshape
    rfl
  | none =>
    cases s with
    | int => rfl
    | bool => rfl
    | array n element =>
      obtain ⟨a, ha'⟩ := exists_array?_of_shape? h
      rw [ha] at ha'
      cases ha'

/-- A handle of the shape of an array is not primitive. -/
lemma get?_eq_of_shape?_array {n : Nat} (h : t.shape? id = some (.array n s)) :
    t.get? id = (t.array? id).map .array := by
  unfold get?
  split
  · rename_i hid
    rw [hid, shape?_int] at h
    cases h
  · split
    · rename_i hid
      rw [hid, shape?_bool] at h
      cases h
    · rfl

/-- A value of a type takes a word for each of its cells. -/
lemma WellFormed.byteSize_eq (ht : t.WellFormed) (h : t.shape? id = some s) :
    t.byteSize id = Word.size * s.cells := by
  cases hs : s.isScalar with
  | true =>
    rw [ValueShape.cells_of_isScalar hs]
    rcases eq_of_shapeIn_isScalar h hs with ⟨rfl, -⟩ | ⟨rfl, -⟩
    · rfl
    · rfl
  | false =>
    cases s with
    | int => cases hs
    | bool => cases hs
    | array n element =>
      obtain ⟨a, ha⟩ := exists_array?_of_shape? h
      obtain ⟨s', -, hshape, hsize, -⟩ := ht.array?_spec ha
      rw [h] at hshape
      cases hshape
      have hget : t.get? id = some (.array a) := by
        rw [get?_eq_of_shape?_array h, ha]
        rfl
      unfold byteSize
      rw [hget]
      exact hsize

/-- The shapes of a well-formed list of arrays fit. -/
lemma WellFormedIn.fits {l : List ArrayType} (hl : WellFormedIn l) (h : shapeIn l id = some s) :
    s.Fits := by
  induction l generalizing id s with
  | nil =>
    unfold shapeIn at h
    split at h
    · cases h
      trivial
    · split at h
      · cases h
        trivial
      · cases h
  | cons a older ih =>
    obtain ⟨holder, base, hbase, hsize, hmax, hlength⟩ := hl
    rw [shapeIn] at h
    split at h
    · rw [hbase] at h
      cases h
      rw [hsize] at hmax
      exact ⟨ih holder hbase, hlength, hmax⟩
    · exact ih holder h

/-- The shapes of a well-formed table fit. -/
lemma WellFormed.fits (ht : t.WellFormed) (h : t.shape? id = some s) : s.Fits :=
  WellFormedIn.fits ht h

/-- Adding an array keeps the table well-formed and the older shapes; the new handle stands for the
array. -/
lemma WellFormed.addArray_spec (ht : t.WellFormed) {base : TypeId} {n : Nat} {new : TypeId}
    (hbase : t.shape? base = some s) (h : t.addArray base n = some (new, t')) :
    t'.WellFormed ∧ t'.shape? new = some (.array n s) ∧
      ∀ id s', t.shape? id = some s' → t'.shape? id = some s' := by
  unfold addArray at h
  dsimp only at h
  split at h
  · rename_i hfits
    cases h
    have hsize : n * t.byteSize base = Word.size * (n * s.cells) := by
      rw [ht.byteSize_eq hbase, Nat.mul_left_comm]
    refine ⟨⟨ht, s, hbase, hsize, hfits.2, hfits.1⟩, ?_, fun id s' hs' => shapeIn_cons hs' _⟩
    unfold shape? at hbase ⊢
    simp only [shapeIn, size, if_true, hbase, Option.map_some]
  · cases h

/-- An array that cannot be added is too long or too large. -/
lemma WellFormed.not_fits_of_addArray (ht : t.WellFormed) {base : TypeId} {n : Nat}
    (hbase : t.shape? base = some s) (h : t.addArray base n = none) :
    ¬(ValueShape.array n s).Fits := by
  rintro ⟨-, hlength, hsize⟩
  unfold addArray at h
  rw [ht.byteSize_eq hbase, Nat.mul_left_comm] at h
  dsimp only at h
  rw [if_pos ⟨hlength, hsize⟩] at h
  cases h

end TypeTable

/-! ### Shapes of written types -/

/-- The shape of a written type, given the shapes that names of types stand for. -/
def TypeExpr.shape? (names : List (String × ValueShape)) : TypeExpr → Option ValueShape
  | .named _ name => names.lookup name
  | .array _ length base => (base.shape? names).map (.array length.toNat)

/-- Adds the names that type definitions give to shapes, each of which may use those above it. -/
def typeNamesFrom (names : List (String × ValueShape)) : List TypeDef → List (String × ValueShape)
  | [] => names
  | d :: rest =>
    match d.type.shape? names with
    | some s => typeNamesFrom ((d.name, s) :: names) rest
    | none => typeNamesFrom names rest

/-- The names of the primitive types. -/
def primitiveNames : List (String × ValueShape) := [("int", .int), ("bool", .bool)]

/-- What the names of types stand for in a program. -/
def Program.typeNames (p : Program) : List (String × ValueShape) :=
  typeNamesFrom primitiveNames p.typeDefs

section
variable {names : List (String × ValueShape)} {d : TypeDef} {l : List TypeDef}

/-- The names that one more type definition leads to. -/
lemma typeNamesFrom_concat {s : ValueShape} (h : d.type.shape? (typeNamesFrom names l) = some s) :
    typeNamesFrom names (l ++ [d]) = (d.name, s) :: typeNamesFrom names l := by
  induction l generalizing names with
  | nil =>
    simp only [typeNamesFrom, List.nil_append] at h ⊢
    rw [h]
  | cons d' l ih =>
    rw [typeNamesFrom] at h
    rw [List.cons_append, typeNamesFrom, typeNamesFrom]
    split at h <;> exact ih h

/-- A name that stands for a shape does so from the start, or is that of a type definition. -/
lemma mem_of_lookup_typeNamesFrom {n : String} {s : ValueShape}
    (h : (typeNamesFrom names l).lookup n = some s) :
    n ∈ names.map Prod.fst ++ l.map TypeDef.name := by
  induction l generalizing names with
  | nil =>
    rw [typeNamesFrom, List.lookup_eq_some_iff] at h
    obtain ⟨before, after, hnames, -⟩ := h
    rw [hnames]
    simp
  | cons d l ih =>
    rw [typeNamesFrom] at h
    split at h <;> have hmem := ih h <;>
      simp only [List.map_cons, List.mem_append, List.mem_cons] at hmem ⊢ <;> grind

end

end TreeCompiler
