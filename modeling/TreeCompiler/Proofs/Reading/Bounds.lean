import TreeCompiler.Proofs.Reading.Levels
import TreeCompiler.Proofs.Reading.Record
import TreeCompiler.Proofs.Tree.Unnumbered
import TreeCompiler.Tree.Shape

/-!
# What is read can be written

A tree may be spelt in several ways: records as mappings or as sequences, operators by their name or
as mappings, fields left out.  None of these is shallower than the written form of the tree:
wherever a shape reads a tree, the written form of the tree enters no more containers than there are
levels left (`Shape.Bounds`), down to whole programs (`Nesting.levels_of_program`).
-/

namespace TreeCompiler

open FieldShape (required part)
open Record (cons nil)

variable {α β : Type} {levels : Nat}

/-! ### Shapes -/

/-- What a shape reads is written within the levels that it may enter. -/
def Shape.Bounds (s : Shape α) (written : α → Value) : Prop :=
  ∀ ⦃levels v a⦄, s levels v = .ok a → (written a).levels ≤ levels

namespace Shape

variable {s : Shape α} {written : α → Value}

/-- A list needs a level more than its items. -/
lemma Bounds.list (h : s.Bounds written) :
    (Shape.list s).Bounds fun l => .list (l.map written) := by
  intro levels v l hl
  obtain ⟨left, rfl, hitems⟩ := of_list hl
  refine Value.levels_list_le.mpr ⟨left, rfl, fun w hw => ?_⟩
  obtain ⟨a, ha, rfl⟩ := List.mem_map.mp hw
  obtain ⟨v, hv⟩ := hitems a ha
  exact h hv

/-- No value is written as something without levels. -/
lemma Bounds.optional (h : s.Bounds written) :
    (Shape.optional s).Bounds fun a => (a.map written).getD .null := by
  intro levels v a ha
  unfold Shape.optional at ha
  split at ha
  · cases ha
    exact Nat.zero_le levels
  · cases ha
  · obtain ⟨b, hb, rfl⟩ := map_eq_ok.mp ha
    exact h hb

/-- What a required field gives is written within the levels of its shape. -/
lemma Bounds.required {name : String} (h : s.Bounds written) {a : α}
    (ha : (FieldShape.required name s).Gives levels a) : (written a).levels ≤ levels := by
  rcases ha with ⟨v, hv⟩ | ha | ha
  · exact h hv
  all_goals cases ha

end Shape

/-- A mark is written within the levels that its shape enters. -/
lemma Mark.bounds_shape : Mark.shape.Bounds Mark.written := by
  intro levels v m h
  obtain ⟨x, hx, -⟩ := map_eq_ok.mp h
  obtain ⟨left, rfl, -⟩ := Record.parts_of_shape hx
  exact Nat.succ_le_succ (Nat.zero_le left)

/-! ### Trees -/

/-- A type is written within the levels that its shape enters. -/
lemma TypeExpr.bounds_shape (depth : Nat) : (TypeExpr.shape 1 depth).Bounds TypeExpr.written := by
  induction depth with
  | zero =>
    intro levels v e h
    cases h
  | succ depth ih =>
    intro levels v e h
    obtain ⟨variant, hmem, hgives⟩ := Shape.of_choice h
    simp only [List.mem_cons, List.not_mem_nil, or_false] at hmem
    rcases hmem with rfl | rfl
    · obtain ⟨left, ⟨mark, name, -⟩, rfl, ⟨hmark, -, -⟩, rfl⟩ := Variant.parts_of_tuple hgives
      refine Value.levels_variant_list_le.mpr ⟨left, rfl, ?_⟩
      simp [Mark.bounds_shape.required hmark]
    · obtain ⟨left, ⟨mark, length, base, -⟩, rfl, ⟨hmark, -, hbase, -⟩, rfl⟩ :=
        Variant.parts_of_struct hgives
      refine Value.levels_variant_object_le.mpr ⟨left, rfl, ?_⟩
      simp [Mark.bounds_shape.required hmark, ih.required hbase]

/-- Variables and expressions are written within the levels that their shapes enter. -/
lemma Expr.bounds_shapes (depth : Nat) :
    (Variable.shape 1 depth).Bounds Variable.written ∧
      (Expr.shape 1 depth).Bounds Expr.written := by
  induction depth with
  | zero => exact ⟨fun _ _ _ h => (by cases h), fun _ _ _ h => (by cases h)⟩
  | succ depth ih =>
    obtain ⟨hvariable, hexpr⟩ := ih
    constructor
    · intro levels v e h
      obtain ⟨variant, hmem, hgives⟩ := Shape.of_choice h
      simp only [List.mem_cons, List.not_mem_nil, or_false] at hmem
      rcases hmem with rfl | rfl
      · obtain ⟨left, ⟨mark, name, -⟩, rfl, ⟨hmark, -, -⟩, rfl⟩ := Variant.parts_of_tuple hgives
        refine Value.levels_variant_list_le.mpr ⟨left, rfl, ?_⟩
        simp [Mark.bounds_shape.required hmark]
      · obtain ⟨left, ⟨mark, array, index, -⟩, rfl, ⟨hmark, harray, hindex, -⟩, rfl⟩ :=
          Variant.parts_of_struct hgives
        refine Value.levels_variant_object_le.mpr ⟨left, rfl, ?_⟩
        simp [Mark.bounds_shape.required hmark, hvariable.required harray, hexpr.required hindex]
    · intro levels v e h
      obtain ⟨variant, hmem, hgives⟩ := Shape.of_choice h
      simp only [List.mem_cons, List.not_mem_nil, or_false] at hmem
      rcases hmem with rfl | rfl | rfl | rfl | rfl
      · obtain ⟨left, ⟨mark, value, -⟩, rfl, ⟨hmark, -, -⟩, rfl⟩ := Variant.parts_of_tuple hgives
        refine Value.levels_variant_list_le.mpr ⟨left, rfl, ?_⟩
        simp [Mark.bounds_shape.required hmark]
      · obtain ⟨left, ⟨mark, value, -⟩, rfl, ⟨hmark, -, -⟩, rfl⟩ := Variant.parts_of_tuple hgives
        refine Value.levels_variant_list_le.mpr ⟨left, rfl, ?_⟩
        simp [Mark.bounds_shape.required hmark]
      · obtain ⟨left, ⟨mark, source, -⟩, rfl, ⟨hmark, hsource, -⟩, rfl⟩ :=
          Variant.parts_of_tuple hgives
        refine Value.levels_variant_list_le.mpr ⟨left, rfl, ?_⟩
        simp [Mark.bounds_shape.required hmark, hvariable.required hsource]
      · obtain ⟨left, ⟨mark, -, operand, -⟩, rfl, ⟨hmark, -, hoperand, -⟩, rfl⟩ :=
          Variant.parts_of_tuple hgives
        refine Value.levels_variant_list_le.mpr ⟨left, rfl, ?_⟩
        simp [Mark.bounds_shape.required hmark, hexpr.required hoperand]
      · obtain ⟨left, ⟨mark, op, first, second, -⟩, rfl, ⟨hmark, -, hfirst, hsecond, -⟩, rfl⟩ :=
          Variant.parts_of_tuple hgives
        refine Value.levels_variant_list_le.mpr ⟨left, rfl, ?_⟩
        simp [BinaryOp.written, Mark.bounds_shape.required hmark, hexpr.required hfirst,
          hexpr.required hsecond]

/-- A statement is written within the levels that its shape enters. -/
lemma Stmt.bounds_shape (depth : Nat) : (Stmt.shape 1 depth).Bounds Stmt.written := by
  induction depth with
  | zero =>
    intro levels v s h
    cases h
  | succ depth ih =>
    obtain ⟨hvariable, hexpr⟩ := Expr.bounds_shapes depth
    intro levels v s h
    obtain ⟨variant, hmem, hgives⟩ := Shape.of_choice h
    simp only [List.mem_cons, List.not_mem_nil, or_false] at hmem
    rcases hmem with rfl | rfl | rfl | rfl | rfl | rfl
    · obtain ⟨left, v, rfl, hread⟩ := hgives
      obtain ⟨mark, hmark, rfl⟩ := map_eq_ok.mp hread
      exact Value.levels_variant_le.mpr ⟨left, rfl, Mark.bounds_shape hmark⟩
    · obtain ⟨left, ⟨mark, body, -⟩, rfl, ⟨hmark, hbody, -⟩, rfl⟩ := Variant.parts_of_tuple hgives
      refine Value.levels_variant_list_le.mpr ⟨left, rfl, ?_⟩
      have hbody := ih.list.required hbody
      simp [writtenStmts_eq_map, Mark.bounds_shape.required hmark, hbody]
    · obtain ⟨left, ⟨mark, target, value, -⟩, rfl, ⟨hmark, htarget, hvalue, -⟩, rfl⟩ :=
        Variant.parts_of_struct hgives
      refine Value.levels_variant_object_le.mpr ⟨left, rfl, ?_⟩
      simp [Mark.bounds_shape.required hmark, hvariable.required htarget, hexpr.required hvalue]
    · obtain ⟨left, ⟨mark, test, thenPart, elsePart, -⟩, rfl, ⟨hmark, htest, hthen, helse, -⟩,
        rfl⟩ := Variant.parts_of_struct hgives
      have hmark := Mark.bounds_shape.required hmark
      have htest := hexpr.required htest
      have hthen := ih.required hthen
      cases elsePart with
      | none =>
        refine Value.levels_variant_object_le.mpr ⟨left, rfl, ?_⟩
        simp [hmark, htest, hthen]
      | some elsePart =>
        refine Value.levels_variant_object_le.mpr ⟨left, rfl, ?_⟩
        -- An else part that is there was read, for the field is none where it is missing.
        have helse : elsePart.written.levels ≤ left := by
          rcases helse with ⟨v, hv⟩ | helse | helse
          · exact ih.optional hv
          all_goals cases helse
        simp [hmark, htest, hthen, helse]
    · obtain ⟨left, ⟨mark, test, body, -⟩, rfl, ⟨hmark, htest, hbody, -⟩, rfl⟩ :=
        Variant.parts_of_struct hgives
      refine Value.levels_variant_object_le.mpr ⟨left, rfl, ?_⟩
      simp [Mark.bounds_shape.required hmark, hexpr.required htest, ih.required hbody]
    · obtain ⟨left, ⟨mark, callee, arguments, -⟩, rfl, ⟨hmark, -, harguments, -⟩, rfl⟩ :=
        Variant.parts_of_struct hgives
      refine Value.levels_variant_object_le.mpr ⟨left, rfl, ?_⟩
      have harguments := hexpr.list.required harguments
      simp [Mark.bounds_shape.required hmark, harguments]

/-! ### Programs -/

namespace Nesting

/-- A parameter is written within the levels that its shape enters. -/
lemma bounds_parameter (limit : Nat) : (parameter ⟨limit, 1⟩).Bounds Parameter.written := by
  intro levels v p h
  obtain ⟨left, ⟨mark, name, type, isReference, -⟩, rfl, ⟨hmark, -, htype, -, -⟩, rfl⟩ :=
    Record.parts_of_map_shape h
  refine Value.levels_object_le.mpr ⟨left, rfl, ?_⟩
  have htype := (TypeExpr.bounds_shape _).required htype
  simp [Mark.bounds_shape.required hmark, htype]

/-- A local variable is written within the levels that its shape enters. -/
lemma bounds_localVar (limit : Nat) : (localVar ⟨limit, 1⟩).Bounds LocalVar.written := by
  intro levels v p h
  obtain ⟨left, ⟨mark, name, type, -⟩, rfl, ⟨hmark, -, htype, -⟩, rfl⟩ :=
    Record.parts_of_map_shape h
  refine Value.levels_object_le.mpr ⟨left, rfl, ?_⟩
  have htype := (TypeExpr.bounds_shape _).required htype
  simp [Mark.bounds_shape.required hmark, htype]

/-- A definition is written within the levels that its shape enters. -/
lemma bounds_definition (limit : Nat) : (definition ⟨limit, 1⟩).Bounds Definition.written := by
  intro levels v d h
  obtain ⟨variant, hmem, hgives⟩ := Shape.of_choice h
  simp only [List.mem_cons, List.not_mem_nil, or_false] at hmem
  rcases hmem with rfl | rfl
  · obtain ⟨outer, v, rfl, hread⟩ := hgives
    obtain ⟨d, hd, rfl⟩ := map_eq_ok.mp hread
    obtain ⟨left, ⟨mark, name, type, -⟩, rfl, ⟨hmark, -, htype, -⟩, rfl⟩ :=
      Record.parts_of_map_shape hd
    refine Value.levels_variant_object_le.mpr ⟨left, rfl, ?_⟩
    have htype := (TypeExpr.bounds_shape _).required htype
    simp [Mark.bounds_shape.required hmark, htype]
  · obtain ⟨outer, v, rfl, hread⟩ := hgives
    obtain ⟨p, hp, rfl⟩ := map_eq_ok.mp hread
    obtain ⟨left, ⟨mark, name, parameters, locals, body, -⟩, rfl,
      ⟨hmark, -, hparameters, hlocals, hbody, -⟩, rfl⟩ := Record.parts_of_map_shape hp
    refine Value.levels_variant_object_le.mpr ⟨left, rfl, ?_⟩
    have hparameters := (bounds_parameter limit).list.required hparameters
    have hlocals := (bounds_localVar limit).list.required hlocals
    have hbody := (Stmt.bounds_shape _).list.required hbody
    simp [writtenStmts_eq_map, Mark.bounds_shape.required hmark, hparameters, hlocals, hbody]

/-- Definitions that are read are written within the levels that the program's shape enters. -/
lemma levels_of_program {limit : Nat} {v : Value} {p : Program}
    (h : program ⟨limit, 1⟩ levels v = .ok p) :
    ∃ definitions, p = .ofDefinitions definitions ∧
      (Program.mk definitions).written.levels ≤ levels := by
  obtain ⟨left, ⟨definitions, -⟩, rfl, ⟨hdefinitions, -⟩, rfl⟩ := Record.parts_of_map_shape h
  refine ⟨definitions, rfl, Value.levels_object_le.mpr ⟨left, rfl, ?_⟩⟩
  have hdefinitions := (bounds_definition limit).list.required hdefinitions
  simp [hdefinitions]

end Nesting

end TreeCompiler
