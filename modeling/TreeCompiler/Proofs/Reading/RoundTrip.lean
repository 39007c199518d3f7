import TreeCompiler.Proofs.Reading.Bounds
import TreeCompiler.Proofs.Reading.Compact
import TreeCompiler.Proofs.Reading.Written
import TreeCompiler.Proofs.Typing.Decision
import TreeCompiler.Tree.Format

/-!
# Reading undoes writing

The compact JSON text of a program is read as the program if and only if it nests in at most 127
levels, and so does the text of every program that is read from any JSON text
(`Program.read_compact`).  The written form of a program therefore is a normal form of all of its
spellings.
-/

namespace TreeCompiler

open Json (Writable maxNatural maxNegative)

/-! ### Written forms as texts -/

/-- An unsigned word fits into a text. -/
lemma writable_uint32 (n : UInt32) : Writable (.int n.toNat) := by
  have hhigh := n.toNat_lt
  exact .int (by omega) (by unfold maxNatural; omega)

/-- A signed word fits into a text. -/
lemma writable_int32 (i : Int32) : Writable (.int i.toInt) := by
  have hlow := i.le_toInt
  have hhigh := i.toInt_lt
  exact .int (by unfold maxNegative; omega) (by unfold maxNatural; omega)

/-- A text holds a variant if it holds its content. -/
lemma writable_variant {name : String} {content : Value} (h : Writable content) :
    Writable (.variant name content) :=
  .object (by simp [h])

lemma Mark.writable (m : Mark) : Writable m.written := .object (by simp [writable_uint32])

/-- Every type can be written. -/
lemma TypeExpr.writable (e : TypeExpr) : Writable e.written := by
  induction e with
  | named m name => exact writable_variant (.list (by simp [m.writable, Writable.string]))
  | array m length base ih =>
    exact writable_variant (.object (by simp [m.writable, writable_uint32, ih]))

mutual

/-- Every variable can be written. -/
lemma Variable.writable (v : Variable) : Writable v.written := by
  match v with
  | .named m name => exact writable_variant (.list (by simp [m.writable, Writable.string]))
  | .element m array index =>
    exact writable_variant (.object (by simp [m.writable, array.writable, index.writable]))

/-- Every expression can be written. -/
lemma Expr.writable (e : Expr) : Writable e.written := by
  match e with
  | .int m value => exact writable_variant (.list (by simp [m.writable, writable_int32]))
  | .bool m value => exact writable_variant (.list (by simp [m.writable, Writable.bool]))
  | .read m source => exact writable_variant (.list (by simp [m.writable, source.writable]))
  | .negate m operand =>
    exact writable_variant (.list (by simp [m.writable, Writable.string, operand.writable]))
  | .binary m op left right =>
    have hop : Writable op.written := .string _
    exact writable_variant (.list (by simp [m.writable, hop, left.writable, right.writable]))

end

/-- A text holds a list of written forms. -/
lemma writable_map {α : Type} {written : α → Value} {l : List α}
    (h : ∀ a ∈ l, Writable (written a)) : Writable (.list (l.map written)) := by
  refine .list fun v hv => ?_
  obtain ⟨a, ha, rfl⟩ := List.mem_map.mp hv
  exact h a ha

mutual

/-- Every statement can be written. -/
lemma Stmt.writable (s : Stmt) : Writable s.written := by
  match s with
  | .empty m => exact writable_variant m.writable
  | .block m body =>
    have hbody : Writable (.list (writtenStmts body)) := .list (forall_writable body)
    exact writable_variant (.list (by simp [m.writable, hbody]))
  | .assign m target value =>
    exact writable_variant (.object (by simp [m.writable, target.writable, value.writable]))
  | .ifThen m test thenPart =>
    exact writable_variant
      (.object (by simp [m.writable, test.writable, thenPart.writable, Writable.null]))
  | .ifThenElse m test thenPart elsePart =>
    exact writable_variant
      (.object (by simp [m.writable, test.writable, thenPart.writable, elsePart.writable]))
  | .loop m test body =>
    exact writable_variant (.object (by simp [m.writable, test.writable, body.writable]))
  | .call m callee arguments =>
    have harguments := writable_map fun (e : Expr) (_ : e ∈ arguments) => e.writable
    exact writable_variant (.object (by simp [m.writable, Writable.string, harguments]))

/-- Every statement of a list can be written. -/
lemma forall_writable (l : List Stmt) : ∀ v ∈ writtenStmts l, Writable v := by
  match l with
  | [] =>
    intro v hv
    cases hv
  | s :: rest =>
    rw [writtenStmts, List.forall_mem_cons]
    exact ⟨s.writable, forall_writable rest⟩

end

/-- Every parameter can be written. -/
lemma Parameter.writable (p : Parameter) : Writable p.written :=
  .object (by simp [p.mark.writable, p.type.writable, Writable.string, Writable.bool])

/-- Every local variable can be written. -/
lemma LocalVar.writable (v : LocalVar) : Writable v.written :=
  .object (by simp [v.mark.writable, v.type.writable, Writable.string])

/-- Every definition can be written. -/
lemma Definition.writable (d : Definition) : Writable d.written := by
  cases d with
  | type d =>
    exact writable_variant (.object (by simp [d.mark.writable, d.type.writable, Writable.string]))
  | procedure p =>
    have hparameters := writable_map fun q (_ : q ∈ p.parameters) => q.writable
    have hlocals := writable_map fun v (_ : v ∈ p.locals) => v.writable
    have hbody : Writable (.list (writtenStmts p.body)) := .list (forall_writable p.body)
    exact writable_variant
      (.object (by simp [p.mark.writable, Writable.string, hparameters, hlocals, hbody]))

/-! ### Programs -/

namespace Program

/-- The compact JSON text of a program. -/
def text (p : Program) : String := Json.compact p.written

/-- Every definition of a program can be written. -/
lemma forall_fields_writable (p : Program) :
    ∀ f ∈ [("definitions", Value.list (p.definitions.map Definition.written))], Writable f.2 := by
  have hdefinitions := writable_map fun d (_ : d ∈ p.definitions) => d.writable
  simp [hdefinitions]

/-- The text of a program nests as deep as its written form. -/
lemma nesting_text (p : Program) : Json.nesting p.text = p.written.levels :=
  Json.nesting_compact p.forall_fields_writable

/-- The text of a program says its written form. -/
lemma parse_text (p : Program) : Json.parse p.text.toUTF8.toList = ⟨p.written, false⟩ :=
  Json.parse_compact p.forall_fields_writable

/-- The text of a program is read as the program if it nests in at most 127 levels. -/
lemma read_text {definitions : List Definition}
    (h : Json.nesting (ofDefinitions definitions).text ≤ 127) :
    read (ofDefinitions definitions).text.toUTF8.toList .json =
      .ok (ofDefinitions definitions) := by
  rw [nesting_text, written_ofDefinitions] at h
  have hread := Nesting.program_written 127 definitions h (Nat.le_refl 127)
  rw [read]
  change (Json.parse _).program ⟨127, 1⟩ = _
  rw [parse_text, written_ofDefinitions, Document.program, hread]
  rfl

/-- A program that is read from a JSON text is numbered in order, and its text nests in at most 127
levels. -/
lemma nesting_of_read {bytes : List UInt8} {p : Program} (h : read bytes .json = .ok p) :
    ∃ definitions, p = ofDefinitions definitions ∧ Json.nesting p.text ≤ 127 := by
  obtain ⟨q, hread, h⟩ := bind_eq_ok.mp h
  obtain ⟨definitions, rfl, hlevels⟩ := Nesting.levels_of_program hread
  have hp : p = ofDefinitions definitions := by
    split at h
    · cases h
    · cases h
      rfl
  refine ⟨definitions, hp, ?_⟩
  rw [hp, nesting_text, written_ofDefinitions]
  exact hlevels

/-- Reading undoes writing: the compact text of a program is read as the program, with its numbers,
if and only if it nests in at most 127 levels.  Every program that is read from any JSON text has
such a text, so that writing is a normal form: the text is read as the program, and what is read from
it is written as the text again. -/
theorem read_compact :
    (∀ definitions, Json.nesting (ofDefinitions definitions).text ≤ 127 ↔
      read (ofDefinitions definitions).text.toUTF8.toList .json = .ok (ofDefinitions definitions)) ∧
    ∀ bytes p, read bytes .json = .ok p →
      Json.nesting p.text ≤ 127 ∧ read p.text.toUTF8.toList .json = .ok p ∧
      ∀ q, read p.text.toUTF8.toList .json = .ok q → q = p ∧ q.text = p.text := by
  constructor
  · intro definitions
    constructor
    · exact read_text
    · intro h
      obtain ⟨-, -, hnesting⟩ := nesting_of_read h
      exact hnesting
  · intro bytes p h
    obtain ⟨definitions, rfl, hnesting⟩ := nesting_of_read h
    have hread := read_text hnesting
    refine ⟨hnesting, hread, fun q hq => ?_⟩
    have hqp : q = ofDefinitions definitions := by
      rw [hread] at hq
      exact (Except.ok.inj hq).symm
    exact ⟨hqp, congrArg text hqp⟩

/-- The text of the countdown is read as the countdown. -/
theorem read_compact_countdown :
    Json.nesting (ofDefinitions countdown).text ≤ 127 ∧
      read (ofDefinitions countdown).text.toUTF8.toList .json = .ok (ofDefinitions countdown) ∧
      ∀ q, read (ofDefinitions countdown).text.toUTF8.toList .json = .ok q →
        q = ofDefinitions countdown ∧ q.text = (ofDefinitions countdown).text := by
  have hnesting : Json.nesting (ofDefinitions countdown).text ≤ 127 := by
    rw [nesting_text]
    decide
  exact read_compact.2 _ _ ((read_compact.1 countdown).mp hnesting)

end Program

end TreeCompiler
