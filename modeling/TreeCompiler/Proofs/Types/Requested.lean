import Mathlib.Algebra.BigOperators.Group.List.Basic
import Mathlib.Logic.Relation
import Mathlib.Tactic.IntervalCases
import TreeCompiler.Proofs.Types.Shape

/-!
# Requests for array types

A table of types changes by requests for arrays of a type that is in it (`TypeTable.Requested`).
However many there are, the table lists the types that it listed before, in their order
(`TypeTable.Reaches.toList_extends`), and it stays well-formed (`TypeTable.Reaches.wellFormed`).  So every
array is made of elements of an older type, and following the elements ends at a primitive type
(`TypeTable.Unfolds`); sizes and names are told by what is met on the way
(`TypeTable.request_invariant`).
-/

namespace TreeCompiler

namespace ValueShape

/-- The lengths of the arrays in a shape, the outermost first. -/
def lengths : ValueShape → List Nat
  | int | bool => []
  | array length element => length :: element.lengths

/-- A shape in words. -/
def describe : ValueShape → String
  | int => "int"
  | bool => "bool"
  | array length element => "array [" ++ toString length ++ "] of " ++ element.describe

/-- There are as many cells as the lengths say. -/
lemma cells_eq_prod (s : ValueShape) : s.cells = s.lengths.prod := by
  induction s with
  | int => rfl
  | bool => rfl
  | array length element ih => rw [cells, lengths, List.prod_cons, ih]

end ValueShape

namespace TypeTable

variable {t t' : TypeTable} {id base : TypeId} {s : ValueShape} {a : ArrayType}

/-! ### The types of a table -/

/-- The types of a table in the order of their handles. -/
def toList (t : TypeTable) : List TypeInfo := .int :: .bool :: t.arrays.reverse.map .array

@[simp] lemma length_toList : t.toList.length = t.size := by
  simp only [toList, size, primitives, List.length_cons, List.length_map, List.length_reverse]
  omega

/-- An array is found at its place among all the arrays, oldest first. -/
lemma findArray_eq_getElem? (l : List ArrayType) {k : Nat} (hk : id.index = primitives + k) :
    findArray id l = l.reverse[k]? := by
  induction l with
  | nil => rfl
  | cons b older ih =>
    rw [findArray, List.reverse_cons]
    by_cases hid : id.index = primitives + older.length
    · have hplace : k = older.reverse.length := by
        rw [List.length_reverse]
        omega
      rw [if_pos hid, hplace, List.getElem?_concat_length]
    · rw [if_neg hid, ih]
      by_cases hlt : k < older.reverse.length
      · rw [List.getElem?_append_left hlt]
      · have hgt : older.reverse.length + 1 ≤ k := by
          rw [List.length_reverse] at hlt ⊢
          omega
        rw [List.getElem?_eq_none (by omega), List.getElem?_eq_none]
        rwa [List.length_append, List.length_singleton]

/-- A handle stands for the type at its place. -/
lemma get?_eq_getElem? : t.get? id = t.toList[id.index]? := by
  obtain ⟨k⟩ := id
  match k with
  | 0 => rfl
  | 1 => rfl
  | k + 2 =>
    have hint : (⟨k + 2⟩ : TypeId) ≠ .int := by simp [TypeId.int]
    have hbool : (⟨k + 2⟩ : TypeId) ≠ .bool := by simp [TypeId.bool]
    have hindex : (⟨k + 2⟩ : TypeId).index = primitives + k := Nat.add_comm k 2
    unfold get? array?
    rw [if_neg hint, if_neg hbool, findArray_eq_getElem? t.arrays hindex, toList,
      List.getElem?_cons_succ, List.getElem?_cons_succ, List.getElem?_map]

/-- The handles that stand for a type are those in the table. -/
lemma contains_iff : t.contains id = true ↔ id.index < t.toList.length := by
  rw [length_toList]
  exact decide_eq_true_iff

/-- A handle that stands for an array finds it. -/
lemma array?_of_get? (h : t.get? id = some (.array a)) : t.array? id = some a := by
  unfold get? at h
  split at h
  · cases h
  · split at h
    · cases h
    · obtain ⟨a', ha', heq⟩ := Option.map_eq_some_iff.mp h
      cases heq
      exact ha'

/-- An array that is found is what its handle stands for. -/
lemma WellFormed.get?_of_array? (ht : t.WellFormed) (h : t.array? id = some a) :
    t.get? id = some (.array a) := by
  obtain ⟨s, -, hshape, -⟩ := ht.array?_spec h
  rw [get?_eq_of_shape?_array hshape, h]
  rfl

/-- An array that is found is one of the types. -/
lemma mem_toList_of_array? (h : t.array? id = some a) : .array a ∈ t.toList := by
  have hfound : ∀ l, findArray id l = some a → a ∈ l := by
    intro l hl
    induction l with
    | nil => cases hl
    | cons b older ih =>
      rw [findArray] at hl
      split at hl
      · cases hl
        exact List.mem_cons_self
      · exact List.mem_cons_of_mem _ (ih hl)
  unfold toList
  simpa using hfound t.arrays h

/-! ### Adding arrays -/

/-- An array that is added stands at the end, under the next handle. -/
lemma toList_of_addArray {n : Nat} (h : t.addArray base n = some (id, t')) :
    id = ⟨t.size⟩ ∧ t'.toList = t.toList ++ [.array ⟨n, base, n * t.byteSize base⟩] := by
  unfold addArray at h
  dsimp only at h
  split at h
  · cases h
    simp [toList]
  · cases h

/-- A table does not shrink when an array is added. -/
lemma size_le_of_addArray {n : Nat} (h : t.addArray base n = some (id, t')) : t.size ≤ t'.size := by
  obtain ⟨-, hlist⟩ := toList_of_addArray h
  rw [← length_toList, ← length_toList, hlist, List.length_append]
  exact Nat.le_add_right _ _

/-- Handles of a table are handles of every larger one. -/
lemma contains_mono (h : t.size ≤ t'.size) (hid : t.contains id = true) : t'.contains id = true :=
  decide_eq_true ((of_decide_eq_true hid).trans_le h)

/-- The handle of an array that is added is in the table. -/
lemma contains_new_of_addArray {n : Nat} (h : t.addArray base n = some (id, t')) :
    t'.contains id = true := by
  obtain ⟨rfl, hlist⟩ := toList_of_addArray h
  rw [contains_iff, hlist, List.length_append, length_toList]
  exact Nat.lt_succ_self _

/-! ### Well-formed tables -/

/-- In a well-formed list of arrays every handle has a shape. -/
lemma WellFormedIn.exists_shapeIn {l : List ArrayType} (hl : WellFormedIn l)
    (hid : id.index < primitives + l.length) : ∃ s, shapeIn l id = some s := by
  induction l with
  | nil =>
    obtain ⟨k⟩ := id
    have hk : k < 2 := hid
    interval_cases k
    · exact ⟨.int, rfl⟩
    · exact ⟨.bool, rfl⟩
  | cons b older ih =>
    obtain ⟨holder, element, helement, -⟩ := hl
    rw [shapeIn, helement]
    split
    · exact ⟨_, rfl⟩
    · refine ih holder ?_
      rw [List.length_cons] at hid
      omega

/-- In a well-formed table every handle has a shape. -/
lemma WellFormed.exists_shape? (ht : t.WellFormed) (hid : t.contains id = true) :
    ∃ s, t.shape? id = some s :=
  WellFormedIn.exists_shapeIn ht (of_decide_eq_true hid)

/-- The elements of an array are of an older type. -/
lemma WellFormedIn.base_lt {l : List ArrayType} (hl : WellFormedIn l)
    (h : findArray id l = some a) : a.base.index < id.index := by
  induction l with
  | nil => cases h
  | cons b older ih =>
    obtain ⟨holder, element, helement, -⟩ := hl
    rw [findArray] at h
    split at h
    · rename_i hid
      cases h
      rw [hid]
      exact index_lt_of_shapeIn helement
    · exact ih holder h

/-- The name of a handle among a list of arrays is its shape in words. -/
lemma nameIn_of_shapeIn {l : List ArrayType} (h : shapeIn l id = some s) :
    nameIn l id = .ok s.describe := by
  induction l generalizing id s with
  | nil =>
    unfold shapeIn at h
    rw [nameIn]
    split at h
    · cases h
      rw [if_pos ‹_›]
      rfl
    · rw [if_neg ‹_›]
      split at h
      · cases h
        rw [if_pos ‹_›]
        rfl
      · cases h
  | cons b older ih =>
    rw [shapeIn] at h
    rw [nameIn]
    split at h
    · obtain ⟨element, helement, rfl⟩ := Option.map_eq_some_iff.mp h
      rw [if_pos ‹_›, ih helement]
      rfl
    · rw [if_neg ‹_›]
      exact ih h

/-- The name of a type is its shape in words. -/
lemma name_of_shape? (h : t.shape? id = some s) : t.name id = .ok s.describe :=
  nameIn_of_shapeIn h

/-- A handle that is not in the table has no name. -/
lemma name_of_not_contains (hid : t.contains id = false) : t.name id = .error ⟨id⟩ := by
  have hge : primitives + t.arrays.length ≤ id.index := Nat.le_of_not_lt (of_decide_eq_false hid)
  unfold name
  generalize t.arrays = l at hge
  induction l with
  | nil =>
    have hint : id ≠ .int := by
      rintro rfl
      exact absurd hge (by decide)
    have hbool : id ≠ .bool := by
      rintro rfl
      exact absurd hge (by decide)
    rw [nameIn, if_neg hint, if_neg hbool]
  | cons b older ih =>
    rw [List.length_cons] at hge
    rw [nameIn, if_neg (by omega)]
    exact ih (by omega)

/-! ### Following the elements -/

/-- What a handle stands for, found by following the elements of arrays down to a primitive type. -/
inductive Unfolds (t : TypeTable) : TypeId → ValueShape → Prop where
  | int {id : TypeId} : t.get? id = some .int → Unfolds t id .int
  | bool {id : TypeId} : t.get? id = some .bool → Unfolds t id .bool
  | array {id : TypeId} {a : ArrayType} {s : ValueShape} : t.get? id = some (.array a) →
      Unfolds t a.base s → Unfolds t id (.array a.length s)

/-- There is one way to follow the elements. -/
lemma Unfolds.unique {s' : ValueShape} (h : t.Unfolds id s) (h' : t.Unfolds id s') : s = s' := by
  induction h generalizing s' with
  | int hid =>
    cases h' with
    | int => rfl
    | bool hid' => cases hid.symm.trans hid'
    | array hid' => cases hid.symm.trans hid'
  | bool hid =>
    cases h' with
    | int hid' => cases hid.symm.trans hid'
    | bool => rfl
    | array hid' => cases hid.symm.trans hid'
  | array hid _ ih =>
    cases h' with
    | int hid' => cases hid.symm.trans hid'
    | bool hid' => cases hid.symm.trans hid'
    | array hid' hbase =>
      cases hid.symm.trans hid'
      rw [ih hbase]

/-- In a well-formed table following the elements ends at the shape of the handle. -/
lemma WellFormed.unfolds (ht : t.WellFormed) (h : t.shape? id = some s) : t.Unfolds id s := by
  induction s generalizing id with
  | int =>
    rcases eq_of_shapeIn_isScalar h rfl with ⟨rfl, -⟩ | ⟨-, hs⟩
    · exact .int rfl
    · cases hs
  | bool =>
    rcases eq_of_shapeIn_isScalar h rfl with ⟨-, hs⟩ | ⟨rfl, -⟩
    · cases hs
    · exact .bool rfl
  | array length element ih =>
    obtain ⟨a, ha⟩ := exists_array?_of_shape? h
    obtain ⟨s, hbase, hshape, -⟩ := ht.array?_spec ha
    rw [h] at hshape
    cases hshape
    exact .array (ht.get?_of_array? ha) (ih hbase)

/-! ### Requests -/

/-- A request for the type of arrays of so many elements: its handle, unless it is refused, and the
table that is left. -/
def request (t : TypeTable) (base : TypeId) (length : UInt32) : Option TypeId × TypeTable :=
  match t.addArray base length.toNat with
  | some (id, t') => (some id, t')
  | none => (none, t)

/-- A request is granted if the length and the size are signed words. -/
def Grants (t : TypeTable) (base : TypeId) (length : UInt32) : Prop :=
  (length.toNat : Int) ≤ Word.max ∧ ((length.toNat * t.byteSize base : Nat) : Int) ≤ Word.max

instance {length : UInt32} : Decidable (t.Grants base length) :=
  inferInstanceAs (Decidable (_ ∧ _))

/-- A request that is granted adds a type at the end. -/
lemma request_of_grants {length : UInt32} (h : t.Grants base length) :
    ∃ t', t.request base length = (some ⟨t.size⟩, t') ∧
      t'.toList = t.toList ++
        [.array ⟨length.toNat, base, length.toNat * t.byteSize base⟩] := by
  have hadd : ∃ t', t.addArray base length.toNat = some (⟨t.size⟩, t') := by
    unfold addArray
    exact ⟨_, if_pos h⟩
  obtain ⟨t', hadd⟩ := hadd
  unfold request
  rw [hadd]
  exact ⟨t', rfl, (toList_of_addArray hadd).2⟩

/-- A request that is not granted is refused, and leaves the table as it is. -/
lemma request_of_not_grants {length : UInt32} (h : ¬t.Grants base length) :
    t.request base length = (none, t) := by
  have hadd : t.addArray base length.toNat = none := by
    unfold addArray
    exact if_neg h
  unfold request
  rw [hadd]

/-- A table after a request for arrays of a type that is in it. -/
def Requested (t t' : TypeTable) : Prop :=
  ∃ base length, t.contains base = true ∧ t' = (t.request base length).2

/-- A table after any number of requests, granted or refused. -/
def Reaches : TypeTable → TypeTable → Prop := Relation.ReflTransGen Requested

/-- A request leaves the types that are listed. -/
lemma Requested.toList_extends (h : t.Requested t') : t.toList <+: t'.toList := by
  obtain ⟨base, length, -, rfl⟩ := h
  by_cases hgrants : t.Grants base length
  · obtain ⟨t', hrequest, hlist⟩ := request_of_grants hgrants
    rw [hrequest, hlist]
    exact List.prefix_append _ _
  · refine ⟨[], ?_⟩
    rw [request_of_not_grants hgrants, List.append_nil]

/-- A request leaves a well-formed table. -/
lemma Requested.wellFormed (h : t.Requested t') (ht : t.WellFormed) : t'.WellFormed := by
  obtain ⟨base, length, hbase, rfl⟩ := h
  obtain ⟨s, hs⟩ := ht.exists_shape? hbase
  unfold request
  split
  · rename_i hadd
    exact (ht.addArray_spec hs hadd).1
  · exact ht

/-- The types that are listed stay, however many requests there are. -/
lemma Reaches.toList_extends (h : t.Reaches t') : t.toList <+: t'.toList := by
  induction h with
  | refl => exact List.prefix_rfl
  | tail _ hstep ih => exact ih.trans hstep.toList_extends

/-- A table stays well-formed, however many requests there are. -/
lemma Reaches.wellFormed (h : t.Reaches t') (ht : t.WellFormed) : t'.WellFormed := by
  induction h with
  | refl => exact ht
  | tail _ hstep ih => exact hstep.wellFormed ih

/-- In a table that starts with the primitive types and gets array types by requests, every array is
made of elements of an older type and takes as many bytes as all of them, which fits into a signed
word and into whole words.  Following the elements from any handle ends, at a primitive type, and the
lengths on the way give the size and the name.  A request is granted, under a handle that is new, if
and only if length and size fit, and otherwise leaves the table as it is; no request changes the types
that were there. -/
theorem request_invariant (t : TypeTable) (h : Reaches {} t) :
    (∀ id a, t.get? id = some (.array a) →
      a.base.index < id.index ∧ a.byteSize = a.length * t.byteSize a.base ∧
        t.byteSize id = a.byteSize ∧ 0 ≤ (a.byteSize : Int) ∧ (a.byteSize : Int) ≤ Word.max ∧
        Word.size ∣ a.byteSize) ∧
    (∀ id, t.contains id = true → ∃ s, t.Unfolds id s ∧ (∀ s', t.Unfolds id s' → s' = s) ∧
      t.byteSize id = Word.size * s.lengths.prod ∧ t.name id = .ok s.describe) ∧
    (∀ id, t.contains id = false → t.get? id = none ∧ t.name id = .error ⟨id⟩) ∧
    (∀ base length, t.contains base = true →
      (t.Grants base length → ∃ t', t.request base length = (some ⟨t.size⟩, t') ∧
        t.contains ⟨t.size⟩ = false ∧ t'.toList = t.toList ++
          [.array ⟨length.toNat, base, length.toNat * t.byteSize base⟩]) ∧
      (¬t.Grants base length → t.request base length = (none, t))) ∧
    ∀ t', t.Reaches t' → t.toList <+: t'.toList ∧
      ∀ id, t.contains id = true → t'.get? id = t.get? id := by
  have ht : t.WellFormed := h.wellFormed wellFormed_empty
  refine ⟨fun id a hget => ?arrays, fun id hid => ?inside, fun id hid => ?outside,
    fun base length _ => ⟨fun hgrants => ?granted, request_of_not_grants⟩, fun t' ht' => ?later⟩
  case arrays =>
    have ha : t.array? id = some a := array?_of_get? hget
    obtain ⟨s, hbase, hshape, hsize, hmax, -⟩ := ht.array?_spec ha
    have hbytes : t.byteSize id = a.byteSize := by
      rw [ht.byteSize_eq hshape, hsize]
      rfl
    refine ⟨WellFormedIn.base_lt ht ha, ?_, hbytes, Int.natCast_nonneg _, hmax, _, hsize⟩
    rw [ht.byteSize_eq hbase, hsize, Nat.mul_left_comm]
  case inside =>
    obtain ⟨s, hs⟩ := ht.exists_shape? hid
    have hunfolds := ht.unfolds hs
    refine ⟨s, hunfolds, fun s' hs' => hs'.unique hunfolds, ?_, name_of_shape? hs⟩
    rw [ht.byteSize_eq hs, s.cells_eq_prod]
  case outside =>
    refine ⟨?_, name_of_not_contains hid⟩
    rw [get?_eq_getElem?, List.getElem?_eq_none_iff, ← not_lt, ← contains_iff, hid]
    exact Bool.false_ne_true
  case granted =>
    obtain ⟨t', hrequest, hlist⟩ := request_of_grants hgrants
    exact ⟨t', hrequest, decide_eq_false (Nat.lt_irrefl _), hlist⟩
  case later =>
    refine ⟨ht'.toList_extends, fun id hid => ?_⟩
    obtain ⟨newer, hnewer⟩ := ht'.toList_extends
    rw [get?_eq_getElem?, get?_eq_getElem?, ← hnewer]
    exact List.getElem?_append_left (contains_iff.mp hid)

/-- The table after requests for rows of five integers and for matrices of three rows. -/
def matrixTable : TypeTable := ((request {} .int 5).2.request ⟨2⟩ 3).2

/-- A matrix has the size and the name of its rows and columns, and an array of so many matrices that
its size is no signed word is refused. -/
theorem request_invariant_matrix : Reaches {} matrixTable ∧
    matrixTable.Unfolds ⟨3⟩ (.array 3 (.array 5 .int)) ∧ matrixTable.byteSize ⟨3⟩ = 60 ∧
    matrixTable.name ⟨3⟩ = .ok "array [3] of array [5] of int" ∧
    matrixTable.request ⟨3⟩ 35791395 = (none, matrixTable) := by
  have hreaches : Reaches {} matrixTable :=
    (Relation.ReflTransGen.single ⟨.int, 5, by decide, rfl⟩).tail ⟨⟨2⟩, 3, by decide, rfl⟩
  have hunfolds : matrixTable.Unfolds ⟨3⟩ (.array 3 (.array 5 .int)) :=
    .array (a := ⟨3, ⟨2⟩, 60⟩) rfl (.array (a := ⟨5, .int, 20⟩) rfl (.int rfl))
  obtain ⟨-, hinside, -, hrequest, -⟩ := request_invariant matrixTable hreaches
  obtain ⟨s, -, hunique, hsize, hname⟩ := hinside ⟨3⟩ (by decide)
  obtain rfl := hunique _ hunfolds
  exact ⟨hreaches, hunfolds, hsize, hname, (hrequest ⟨3⟩ 35791395 (by decide)).2 (by decide)⟩

end TypeTable

end TreeCompiler
