import TreeCompiler.Proofs.Reading.Content
import TreeCompiler.Proofs.Tree.Unnumbered
import TreeCompiler.Tree.Shape

/-!
# What is written can be read

The shape of a construct reads the written form of a tree as the tree without its numbers
(`shape_written`), if the written form enters no more containers than there are levels left.  Every
construct takes a level at least, so that the depth to which shapes are built does not matter if it
is larger than the levels.
-/

namespace TreeCompiler

open FieldShape (required part)
open Record (cons nil)

variable {levels depth : Nat}

/-! ### Scalars -/

namespace Shape

/-- An integer within its bounds is read as it is written. -/
lemma integer_written {expected : String} {low high i : Int} (hlow : low ≤ i) (hhigh : i ≤ high) :
    integer expected low high levels (.int i) = .ok i := by
  rw [Value.int]
  split
  · change (if low ≤ (i.toNat : Int) ∧ (i.toNat : Int) ≤ high then Except.ok (i.toNat : Int)
      else _) = _
    rw [Int.toNat_of_nonneg ‹_›, if_pos ⟨hlow, hhigh⟩]
  · change (if low ≤ i ∧ i ≤ high then Except.ok i else _) = _
    rw [if_pos ⟨hlow, hhigh⟩]

/-- A signed word is read as it is written. -/
lemma int32_written (i : Int32) : int32 levels (.int i.toInt) = .ok i := by
  refine map_eq_ok.mpr ⟨i.toInt, integer_written i.le_toInt ?_, Int32.ofInt_toInt i⟩
  have hhigh := i.toInt_lt
  omega

/-- An unsigned word is read as it is written. -/
lemma uint32_written (n : UInt32) : uint32 levels (.int n.toNat) = .ok n := by
  have hhigh := n.toNat_lt
  refine map_eq_ok.mpr ⟨n.toNat, integer_written (by omega) (by omega), ?_⟩
  rw [Int.toNat_natCast, UInt32.ofNat_toNat]

/-- A list is read as it is written if its items are. -/
lemma list_written {α β : Type} {s : Shape α} {l : List β} {written : β → Value} {f : β → α}
    (h : (Value.list (l.map written)).levels ≤ levels)
    (hread : ∀ b ∈ l, ∀ left < levels, (written b).levels ≤ left → s left (written b) = .ok (f b)) :
    list s levels (.list (l.map written)) = .ok (l.map f) := by
  obtain ⟨left, rfl, hitems⟩ := Value.levels_list_le.mp h
  exact list_map fun b hb =>
    hread b hb left (Nat.lt_succ_self left) (hitems _ (List.mem_map_of_mem hb))

end Shape

/-- A mark is read as it is written, without its number. -/
lemma Mark.shape_written (m : Mark) (h : m.written.levels ≤ levels) :
    Mark.shape levels m.written = .ok m.unnumbered := by
  obtain ⟨left, rfl, -⟩ := Value.levels_object_le.mp h
  exact Record.map_shape_object (x := (m.line, ())) (show ["line"].Nodup by decide)
    ⟨_, _, rfl, Shape.uint32_written m.line, rfl⟩ rfl rfl

/-- A depth that is larger than some levels is not zero. -/
private lemma exists_depth (h : levels < depth) : ∃ d, depth = d + 1 := ⟨depth - 1, by omega⟩

/-! ### Types, variables and expressions -/

/-- A type is read as it is written, without its numbers. -/
lemma TypeExpr.shape_written (e : TypeExpr) (h : e.written.levels ≤ levels)
    (hdepth : levels < depth) :
    TypeExpr.shape 1 depth levels e.written = .ok e.unnumbered := by
  induction e generalizing levels depth with
  | named m name =>
    obtain ⟨left, rfl, hparts⟩ := Value.levels_variant_list_le.mp h
    obtain ⟨depth, rfl⟩ := exists_depth hdepth
    have hmark := m.shape_written (hparts m.written (by simp))
    exact Shape.choice_tuple (x := (m.unnumbered, name, ())) rfl
      ⟨_, _, rfl, hmark, _, _, rfl, rfl, rfl⟩ rfl
  | array m length base ih =>
    obtain ⟨left, rfl, hparts⟩ := Value.levels_variant_object_le.mp h
    obtain ⟨depth, rfl⟩ := exists_depth hdepth
    have hmark := m.shape_written (hparts ("context", m.written) (by simp))
    have hbase := ih (hparts ("base", base.written) (by simp)) (show left < depth by omega)
    exact Shape.choice_struct (x := (m.unnumbered, length, base.unnumbered, ())) rfl
      (show ["context", "length", "base"].Nodup by decide)
      ⟨m.written, _, rfl, hmark, _, _, rfl, Shape.uint32_written length, _, _, rfl, hbase, rfl⟩
      rfl rfl

/-- An operator is read as it is written. -/
lemma BinaryOp.shape_written (op : BinaryOp) (levels : Nat) :
    BinaryOp.shape 1 levels op.written = .ok op := by
  cases op
  all_goals exact Shape.choice_name rfl rfl

mutual

/-- A variable is read as it is written, without its numbers. -/
lemma Variable.shape_written (v : Variable) {levels depth : Nat} (h : v.written.levels ≤ levels)
    (hdepth : levels < depth) :
    Variable.shape 1 depth levels v.written = .ok v.unnumbered := by
  match v with
  | .named m name =>
    obtain ⟨left, rfl, hparts⟩ := Value.levels_variant_list_le.mp h
    obtain ⟨depth, rfl⟩ := exists_depth hdepth
    have hmark := m.shape_written (hparts m.written (by simp))
    exact Shape.choice_tuple (x := (m.unnumbered, name, ())) rfl
      ⟨_, _, rfl, hmark, _, _, rfl, rfl, rfl⟩ rfl
  | .element m array index =>
    obtain ⟨left, rfl, hparts⟩ := Value.levels_variant_object_le.mp h
    obtain ⟨depth, rfl⟩ := exists_depth hdepth
    have hmark := m.shape_written (hparts ("context", m.written) (by simp))
    have harray := array.shape_written (hparts ("array", array.written) (by simp))
      (show left < depth by omega)
    have hindex := index.shape_written (hparts ("index", index.written) (by simp))
      (show left < depth by omega)
    exact Shape.choice_struct (x := (m.unnumbered, array.unnumbered, index.unnumbered, ())) rfl
      (show ["context", "array", "index"].Nodup by decide)
      ⟨m.written, _, rfl, hmark, _, _, rfl, harray, _, _, rfl, hindex, rfl⟩ rfl rfl

/-- An expression is read as it is written, without its numbers. -/
lemma Expr.shape_written (e : Expr) {levels depth : Nat} (h : e.written.levels ≤ levels)
    (hdepth : levels < depth) :
    Expr.shape 1 depth levels e.written = .ok e.unnumbered := by
  match e with
  | .int m value =>
    obtain ⟨left, rfl, hparts⟩ := Value.levels_variant_list_le.mp h
    obtain ⟨depth, rfl⟩ := exists_depth hdepth
    have hmark := m.shape_written (hparts m.written (by simp))
    exact Shape.choice_tuple (x := (m.unnumbered, value, ())) rfl
      ⟨_, _, rfl, hmark, _, _, rfl, Shape.int32_written value, rfl⟩ rfl
  | .bool m value =>
    obtain ⟨left, rfl, hparts⟩ := Value.levels_variant_list_le.mp h
    obtain ⟨depth, rfl⟩ := exists_depth hdepth
    have hmark := m.shape_written (hparts m.written (by simp))
    exact Shape.choice_tuple (x := (m.unnumbered, value, ())) rfl
      ⟨_, _, rfl, hmark, _, _, rfl, rfl, rfl⟩ rfl
  | .read m source =>
    obtain ⟨left, rfl, hparts⟩ := Value.levels_variant_list_le.mp h
    obtain ⟨depth, rfl⟩ := exists_depth hdepth
    have hmark := m.shape_written (hparts m.written (by simp))
    have hsource := source.shape_written (hparts source.written (by simp))
      (show left < depth by omega)
    exact Shape.choice_tuple (x := (m.unnumbered, source.unnumbered, ())) rfl
      ⟨_, _, rfl, hmark, _, _, rfl, hsource, rfl⟩ rfl
  | .negate m operand =>
    obtain ⟨left, rfl, hparts⟩ := Value.levels_variant_list_le.mp h
    obtain ⟨depth, rfl⟩ := exists_depth hdepth
    have hmark := m.shape_written (hparts m.written (by simp))
    have hoperand := operand.shape_written (hparts operand.written (by simp))
      (show left < depth by omega)
    exact Shape.choice_tuple (x := (m.unnumbered, (), operand.unnumbered, ())) rfl
      ⟨_, _, rfl, hmark, _, _, rfl, rfl, _, _, rfl, hoperand, rfl⟩ rfl
  | .binary m op first second =>
    obtain ⟨left, rfl, hparts⟩ := Value.levels_variant_list_le.mp h
    obtain ⟨depth, rfl⟩ := exists_depth hdepth
    have hmark := m.shape_written (hparts m.written (by simp))
    have hfirst := first.shape_written (hparts first.written (by simp))
      (show left < depth by omega)
    have hsecond := second.shape_written (hparts second.written (by simp))
      (show left < depth by omega)
    exact Shape.choice_tuple (x := (m.unnumbered, op, first.unnumbered, second.unnumbered, ())) rfl
      ⟨_, _, rfl, hmark, _, _, rfl, op.shape_written left, _, _, rfl, hfirst, _, _, rfl, hsecond,
        rfl⟩ rfl

end

/-! ### Statements -/

/-- A statement is written as a mapping, which is no word for no value. -/
lemma Stmt.optional_written {shape : Shape Stmt} (s : Stmt) {t : Stmt}
    (h : shape levels s.written = .ok t) :
    Shape.optional shape levels s.written = .ok (some t) := by
  have hsame : Shape.optional shape levels s.written = (shape levels s.written).map some := by
    cases s <;> rfl
  rw [hsame, h]
  rfl

/-- Statements are read as they are written if each of them is. -/
lemma list_writtenStmts (l : List Stmt) (h : (Value.list (writtenStmts l)).levels ≤ levels)
    (hdepth : levels < depth) (hread : ∀ s ∈ l, ∀ left < depth, s.written.levels ≤ left →
      Stmt.shape 1 depth left s.written = .ok s.unnumbered) :
    Shape.list (Stmt.shape 1 depth) levels (.list (writtenStmts l)) = .ok (unnumberedStmts l) := by
  rw [writtenStmts_eq_map] at h ⊢
  rw [unnumberedStmts_eq_map]
  exact Shape.list_written h fun s hs left hleft => hread s hs left (by omega)

mutual

/-- A statement is read as it is written, without its numbers. -/
lemma Stmt.shape_written (s : Stmt) {levels depth : Nat} (h : s.written.levels ≤ levels)
    (hdepth : levels < depth) : Stmt.shape 1 depth levels s.written = .ok s.unnumbered := by
  obtain ⟨depth, rfl⟩ := exists_depth hdepth
  match s with
  | .empty m =>
    obtain ⟨left, rfl, hmark⟩ := Value.levels_variant_le.mp h
    exact Shape.choice_variant rfl (map_eq_ok.mpr ⟨_, m.shape_written hmark, rfl⟩)
  | .block m body =>
    obtain ⟨left, rfl, hparts⟩ := Value.levels_variant_list_le.mp h
    have hmark := m.shape_written (hparts m.written (by simp))
    have hbody := list_writtenStmts body (hparts (.list (writtenStmts body)) (by simp))
      (show left < depth by omega) (forall_shape_written body)
    exact Shape.choice_tuple (x := (m.unnumbered, unnumberedStmts body, ())) rfl
      ⟨_, _, rfl, hmark, _, _, rfl, hbody, rfl⟩ rfl
  | .assign m target value =>
    obtain ⟨left, rfl, hparts⟩ := Value.levels_variant_object_le.mp h
    have hmark := m.shape_written (hparts ("context", m.written) (by simp))
    have htarget := target.shape_written (hparts ("target", target.written) (by simp))
      (show left < depth by omega)
    have hvalue := value.shape_written (hparts ("value", value.written) (by simp))
      (show left < depth by omega)
    exact Shape.choice_struct (x := (m.unnumbered, target.unnumbered, value.unnumbered, ())) rfl
      (show ["context", "target", "value"].Nodup by decide)
      ⟨m.written, _, rfl, hmark, _, _, rfl, htarget, _, _, rfl, hvalue, rfl⟩ rfl rfl
  | .ifThen m test thenPart =>
    obtain ⟨left, rfl, hparts⟩ := Value.levels_variant_object_le.mp h
    have hmark := m.shape_written (hparts ("context", m.written) (by simp))
    have htest := test.shape_written (hparts ("cond", test.written) (by simp))
      (show left < depth by omega)
    have hthen := thenPart.shape_written (hparts ("then_part", thenPart.written) (by simp))
      (show left < depth by omega)
    -- The else part is written as no value, which the optional shape reads as none.
    exact Shape.choice_struct
      (x := (m.unnumbered, test.unnumbered, thenPart.unnumbered, none, ())) rfl
      (show ["context", "cond", "then_part", "else_part"].Nodup by decide)
      ⟨m.written, _, rfl, hmark, _, _, rfl, htest, _, _, rfl, hthen, .null, _, rfl, rfl, rfl⟩
      rfl rfl
  | .ifThenElse m test thenPart elsePart =>
    obtain ⟨left, rfl, hparts⟩ := Value.levels_variant_object_le.mp h
    have hmark := m.shape_written (hparts ("context", m.written) (by simp))
    have htest := test.shape_written (hparts ("cond", test.written) (by simp))
      (show left < depth by omega)
    have hthen := thenPart.shape_written (hparts ("then_part", thenPart.written) (by simp))
      (show left < depth by omega)
    have helse := elsePart.optional_written
      (elsePart.shape_written (hparts ("else_part", elsePart.written) (by simp))
        (show left < depth by omega))
    exact Shape.choice_struct
      (x := (m.unnumbered, test.unnumbered, thenPart.unnumbered, some elsePart.unnumbered, ())) rfl
      (show ["context", "cond", "then_part", "else_part"].Nodup by decide)
      ⟨m.written, _, rfl, hmark, _, _, rfl, htest, _, _, rfl, hthen, _, _, rfl, helse, rfl⟩ rfl rfl
  | .loop m test body =>
    obtain ⟨left, rfl, hparts⟩ := Value.levels_variant_object_le.mp h
    have hmark := m.shape_written (hparts ("context", m.written) (by simp))
    have htest := test.shape_written (hparts ("cond", test.written) (by simp))
      (show left < depth by omega)
    have hbody := body.shape_written (hparts ("body", body.written) (by simp))
      (show left < depth by omega)
    exact Shape.choice_struct (x := (m.unnumbered, test.unnumbered, body.unnumbered, ())) rfl
      (show ["context", "cond", "body"].Nodup by decide)
      ⟨m.written, _, rfl, hmark, _, _, rfl, htest, _, _, rfl, hbody, rfl⟩ rfl rfl
  | .call m callee arguments =>
    obtain ⟨left, rfl, hparts⟩ := Value.levels_variant_object_le.mp h
    have hmark := m.shape_written (hparts ("context", m.written) (by simp))
    have harguments : Shape.list (Expr.shape 1 depth) left (.list (arguments.map Expr.written)) =
        .ok (arguments.map Expr.unnumbered) :=
      Shape.list_written (hparts ("arguments", .list (arguments.map Expr.written)) (by simp))
        fun e _ inner hinner he => e.shape_written he (by omega)
    exact Shape.choice_struct
      (x := (m.unnumbered, callee, arguments.map Expr.unnumbered, ())) rfl
      (show ["context", "procedure", "arguments"].Nodup by decide)
      ⟨m.written, _, rfl, hmark, .string callee, _, rfl, rfl,
        .list (arguments.map Expr.written), _, rfl, harguments, rfl⟩ rfl rfl

/-- Every statement of a list is read as it is written, without its numbers. -/
lemma forall_shape_written (l : List Stmt) {depth : Nat} : ∀ s ∈ l, ∀ left < depth,
    s.written.levels ≤ left → Stmt.shape 1 depth left s.written = .ok s.unnumbered := by
  match l with
  | [] =>
    intro s hs
    cases hs
  | s :: rest =>
    rw [List.forall_mem_cons]
    exact ⟨fun left hleft h => s.shape_written h hleft, forall_shape_written rest⟩

end

/-! ### Programs -/

namespace Nesting

variable (limit : Nat)

/-- A parameter is read as it is written, without its numbers. -/
lemma parameter_written (p : Parameter) (h : p.written.levels ≤ levels) (hlimit : levels ≤ limit) :
    parameter ⟨limit, 1⟩ levels p.written = .ok p.unnumbered := by
  obtain ⟨left, rfl, hparts⟩ := Value.levels_object_le.mp h
  have hmark := p.mark.shape_written (hparts ("context", p.mark.written) (by simp))
  have htype := p.type.shape_written (hparts ("ty", p.type.written) (by simp))
    (show left < limit + 1 by omega)
  exact Record.map_shape_object
    (x := (p.mark.unnumbered, p.name, p.type.unnumbered, p.isReference, ()))
    (show ["context", "name", "ty", "is_reference"].Nodup by decide)
    ⟨p.mark.written, _, rfl, hmark, .string p.name, _, rfl, rfl, _, _, rfl, htype,
      .bool p.isReference, _, rfl, rfl, rfl⟩ rfl rfl

/-- A local variable is read as it is written, without its numbers. -/
lemma localVar_written (v : LocalVar) (h : v.written.levels ≤ levels) (hlimit : levels ≤ limit) :
    localVar ⟨limit, 1⟩ levels v.written = .ok v.unnumbered := by
  obtain ⟨left, rfl, hparts⟩ := Value.levels_object_le.mp h
  have hmark := v.mark.shape_written (hparts ("context", v.mark.written) (by simp))
  have htype := v.type.shape_written (hparts ("ty", v.type.written) (by simp))
    (show left < limit + 1 by omega)
  exact Record.map_shape_object (x := (v.mark.unnumbered, v.name, v.type.unnumbered, ()))
    (show ["context", "name", "ty"].Nodup by decide)
    ⟨v.mark.written, _, rfl, hmark, .string v.name, _, rfl, rfl, _, _, rfl, htype, rfl⟩ rfl rfl

/-- A definition is read as it is written, without its numbers. -/
lemma definition_written (d : Definition) (h : d.written.levels ≤ levels)
    (hlimit : levels ≤ limit) :
    definition ⟨limit, 1⟩ levels d.written = .ok d.unnumbered := by
  cases d with
  | type d =>
    obtain ⟨left, rfl, hparts⟩ := Value.levels_variant_object_le.mp h
    have hmark := d.mark.shape_written (hparts ("context", d.mark.written) (by simp))
    have htype := d.type.shape_written (hparts ("ty", d.type.written) (by simp))
      (show left < limit + 1 by omega)
    have hread : typeDef ⟨limit, 1⟩ (left + 1) (.object [("context", d.mark.written),
        ("name", .string d.name), ("ty", d.type.written)]) = .ok d.unnumbered :=
      Record.map_shape_object (x := (d.mark.unnumbered, d.name, d.type.unnumbered, ()))
        (show ["context", "name", "ty"].Nodup by decide)
        ⟨d.mark.written, _, rfl, hmark, .string d.name, _, rfl, rfl, _, _, rfl, htype, rfl⟩ rfl rfl
    exact Shape.choice_variant rfl (map_eq_ok.mpr ⟨_, hread, rfl⟩)
  | procedure p =>
    obtain ⟨left, rfl, hparts⟩ := Value.levels_variant_object_le.mp h
    have hmark := p.mark.shape_written (hparts ("context", p.mark.written) (by simp))
    have hparameters : Shape.list (parameter ⟨limit, 1⟩) left
        (.list (p.parameters.map Parameter.written)) = .ok (p.parameters.map Parameter.unnumbered) :=
      Shape.list_written (hparts ("parameters", .list (p.parameters.map Parameter.written)) (by simp))
        fun q _ inner hinner hq => parameter_written limit q hq (by omega)
    have hlocals : Shape.list (localVar ⟨limit, 1⟩) left
        (.list (p.locals.map LocalVar.written)) = .ok (p.locals.map LocalVar.unnumbered) :=
      Shape.list_written (hparts ("variables", .list (p.locals.map LocalVar.written)) (by simp))
        fun v _ inner hinner hv => localVar_written limit v hv (by omega)
    have hbody := list_writtenStmts p.body (hparts ("body", .list (writtenStmts p.body)) (by simp))
      (show left < limit + 1 by omega) (forall_shape_written p.body)
    have hread : procedure ⟨limit, 1⟩ (left + 1) (.object [("context", p.mark.written),
        ("name", .string p.name), ("parameters", .list (p.parameters.map Parameter.written)),
        ("variables", .list (p.locals.map LocalVar.written)),
        ("body", .list (writtenStmts p.body))]) = .ok p.unnumbered :=
      Record.map_shape_object
        (x := (p.mark.unnumbered, p.name, p.parameters.map Parameter.unnumbered,
          p.locals.map LocalVar.unnumbered, unnumberedStmts p.body, ()))
        (show ["context", "name", "parameters", "variables", "body"].Nodup by decide)
        ⟨p.mark.written, _, rfl, hmark, .string p.name, _, rfl, rfl,
          .list (p.parameters.map Parameter.written), _, rfl, hparameters,
          .list (p.locals.map LocalVar.written), _, rfl, hlocals,
          .list (writtenStmts p.body), _, rfl, hbody, rfl⟩ rfl rfl
    exact Shape.choice_variant rfl (map_eq_ok.mpr ⟨_, hread, rfl⟩)

/-- A program is read from the written form of its definitions. -/
lemma program_written (definitions : List Definition)
    (h : (Program.mk definitions).written.levels ≤ levels) (hlimit : levels ≤ limit) :
    program ⟨limit, 1⟩ levels (Program.mk definitions).written =
      .ok (.ofDefinitions definitions) := by
  obtain ⟨left, rfl, hparts⟩ := Value.levels_object_le.mp h
  have hdefinitions : Shape.list (definition ⟨limit, 1⟩) left
      (.list (definitions.map Definition.written)) = .ok (definitions.map Definition.unnumbered) :=
    Shape.list_written (hparts ("definitions", .list (definitions.map Definition.written)) (by simp))
      fun d _ inner hinner hd => definition_written limit d hd (by omega)
  refine Record.map_shape_object (x := (definitions.map Definition.unnumbered, ()))
    (show ["definitions"].Nodup by decide)
    ⟨.list (definitions.map Definition.written), _, rfl, hdefinitions, rfl⟩ rfl ?_
  exact Program.ofDefinitions_unnumbered definitions

end Nesting

end TreeCompiler
