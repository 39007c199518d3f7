import Mathlib.Tactic.Lemma
import TreeCompiler.Tree.Written

/-!
# The levels of a value

How many containers lie inside each other in a value.  A list lies one level around its items, an
object one level around its fields, and the mapping of a construct's name to its content one level
around the content.
-/

namespace TreeCompiler

variable {levels : Nat}

mutual

/-- How many containers lie inside each other in a value at most. -/
def Value.levels : Value → Nat
  | .scalar _ | .fault _ => 0
  | .sequence items => items.levels + 1
  | .mapping fields => fields.levels + 1

/-- How many containers lie inside each other in items at most. -/
def Items.levels : Items → Nat
  | .done | .broken _ => 0
  | .item value rest => max value.levels rest.levels

/-- How many containers lie inside each other in fields at most. -/
def Fields.levels : Fields → Nat
  | .done | .broken _ | .noKey _ => 0
  | .field _ value rest => max value.levels rest.levels

end

/-- The fields of an object, each a name and a value. -/
def Fields.named (fields : List (String × Value)) : Fields :=
  .append (fields.map fun f => (.ofString f.1, f.2)) .done

namespace Value

@[simp] lemma levels_string (s : String) : (string s).levels = 0 := rfl

@[simp] lemma levels_int (i : Int) : (int i).levels = 0 := rfl

@[simp] lemma levels_bool (b : Bool) : (bool b).levels = 0 := rfl

@[simp] lemma levels_null : null.levels = 0 := rfl

/-- A list lies one level around its items. -/
lemma levels_list_le {values : List Value} :
    (list values).levels ≤ levels ↔ ∃ left, levels = left + 1 ∧ ∀ v ∈ values, v.levels ≤ left := by
  have hitems : ∀ left,
      (Items.append values .done).levels ≤ left ↔ ∀ v ∈ values, v.levels ≤ left := by
    intro left
    induction values with
    | nil => simp [Items.append, Items.levels]
    | cons v rest ih =>
      rw [List.forall_mem_cons, ← ih]
      exact Nat.max_le
  change (Items.append values .done).levels + 1 ≤ levels ↔ _
  constructor
  · intro h
    exact ⟨levels - 1, by omega, (hitems _).mp (by omega)⟩
  · rintro ⟨left, rfl, h⟩
    exact Nat.succ_le_succ ((hitems left).mpr h)

/-- An object lies one level around its fields. -/
lemma levels_object_le {fields : List (String × Value)} :
    (object fields).levels ≤ levels ↔
      ∃ left, levels = left + 1 ∧ ∀ f ∈ fields, f.2.levels ≤ left := by
  have hfields : ∀ left, (Fields.named fields).levels ≤ left ↔ ∀ f ∈ fields, f.2.levels ≤ left := by
    intro left
    induction fields with
    | nil => simp [Fields.named, Fields.append, Fields.levels]
    | cons f rest ih =>
      rw [List.forall_mem_cons, ← ih]
      exact Nat.max_le
  change (Fields.named fields).levels + 1 ≤ levels ↔ _
  constructor
  · intro h
    exact ⟨levels - 1, by omega, (hfields _).mp (by omega)⟩
  · rintro ⟨left, rfl, h⟩
    exact Nat.succ_le_succ ((hfields left).mpr h)

/-- The mapping of a name to a content lies one level around the content. -/
lemma levels_variant_le {name : String} {content : Value} :
    (variant name content).levels ≤ levels ↔ ∃ left, levels = left + 1 ∧ content.levels ≤ left := by
  rw [variant, levels_object_le]
  simp

/-- A variant with a sequence as its content lies two levels around its parts. -/
lemma levels_variant_list_le {name : String} {values : List Value} :
    (variant name (list values)).levels ≤ levels ↔
      ∃ left, levels = left + 1 + 1 ∧ ∀ v ∈ values, v.levels ≤ left := by
  simp only [levels_variant_le, levels_list_le]
  constructor
  · rintro ⟨-, rfl, left, rfl, h⟩
    exact ⟨left, rfl, h⟩
  · rintro ⟨left, rfl, h⟩
    exact ⟨left + 1, rfl, left, rfl, h⟩

/-- A variant with a record as its content lies two levels around its parts. -/
lemma levels_variant_object_le {name : String} {fields : List (String × Value)} :
    (variant name (object fields)).levels ≤ levels ↔
      ∃ left, levels = left + 1 + 1 ∧ ∀ f ∈ fields, f.2.levels ≤ left := by
  simp only [levels_variant_le, levels_object_le]
  constructor
  · rintro ⟨-, rfl, left, rfl, h⟩
    exact ⟨left, rfl, h⟩
  · rintro ⟨left, rfl, h⟩
    exact ⟨left + 1, rfl, left, rfl, h⟩

end Value

end TreeCompiler
