import TreeCompiler.Proofs.Reading.Respelled

/-!
# The spellings of a program

The shapes of all constructs respect how the constructs are spelt, to any depth.  A program therefore
is read alike from all of its spellings (`Nesting.program_respelled`).
-/

namespace TreeCompiler

open FieldShape (required part)
open Record (cons nil)

variable {levels : Nat} {v v' : Value} {f : Form}

section
variable {α β : Type} {r : Record β} {fields : List (String × Form)} {parts : List Form}
  {choiceName name : String} {g : β → α}

/-- A field that must not be absent. -/
lemma Record.Respects.field {field : FieldShape α} {rest : Record β}
    (hfield : field.shape.Respects f) (hrest : Record.Respects [] rest fields) :
    Record.Respects [] (.cons field rest) ((field.name, f) :: fields) :=
  .cons hfield (fun _ h => absurd h List.not_mem_nil) hrest

/-- What is made of a record of which nothing may be absent respects the form of the record. -/
lemma Record.Respects.map_shape (h : Record.Respects [] r fields)
    (hnames : (fields.map Prod.fst).Nodup) (name : String) (g : β → α) :
    ((r.shape name).map g).Respects (.record fields []) :=
  (h.shape hnames (fun _ hd => absurd hd List.not_mem_nil) name).map g

/-- A variant that is written as a sequence respects the forms of its parts. -/
lemma Record.Respects.variant_tuple (h : Record.Respects [] r (parts.map fun f => ("", f))) :
    (Variant.tuple choiceName name r g).shape.Respects (.tuple parts) :=
  (h.tuple _).map g

/-- A variant that is written as a record respects the form of the record. -/
lemma Record.Respects.variant_struct (h : Record.Respects [] r fields)
    (hnames : (fields.map Prod.fst).Nodup) :
    (Variant.struct choiceName name r g).shape.Respects (.record fields []) :=
  h.map_shape hnames _ g

end

/-! ### Marks and operators -/

/-- A mark is read alike from all of its spellings. -/
lemma Mark.respects_shape : Mark.shape.Respects .mark := by
  have hline : (⟨"line", .uint32, some 0, some 0⟩ : FieldShape UInt32).Omits (.int 0) :=
    ⟨0, rfl, fun _ => rfl⟩
  have hrecord : Record.Respects [("line", .int 0)]
      (cons (⟨"line", .uint32, some 0, some 0⟩ : FieldShape UInt32) nil) [("line", .scalar)] := by
    refine .cons Shape.respects_scalar (fun v hv => ?_) .nil
    cases List.mem_singleton.mp hv
    exact hline
  intro v v' hedit
  cases hedit with
  | construct hedit =>
    exact (hrecord.shape (by decide) (by decide) _).map _ v v' hedit
  | noLine =>
    intro levels m
    cases levels <;> exact Iff.rfl

/-- A mark is a container. -/
lemma Mark.shape_levels {m : Mark} (h : Mark.shape levels v = .ok m) : ∃ left, levels = left + 1 := by
  obtain ⟨left, -, rfl, -⟩ := Record.parts_of_map_shape h
  exact ⟨left, rfl⟩

/-- A choice between names is read alike from a name and from the mapping of the name to no value. -/
lemma Shape.choice_name_iff {α : Type} {variants : List (Variant α)}
    (h : ∀ variant ∈ variants, ∃ b, variant.content = .none b) (name : String) (left : Nat) (a : α) :
    choice 1 variants (left + 1) (.string name) = .ok a ↔
      choice 1 variants (left + 1) (.variant name .null) = .ok a := by
  rw [choice_iff]
  change (Variant.find variants name).bind _ = _ ↔ _
  constructor
  · intro hread
    obtain ⟨variant, hfind, hbare⟩ := bind_eq_ok.mp hread
    obtain ⟨b, hcontent⟩ := h variant (Variant.mem_of_find hfind)
    refine ⟨left, variant, rfl, hfind, ?_⟩
    rw [Variant.bare, hcontent] at hbare
    rw [Variant.shape, hcontent]
    exact hbare
  · rintro ⟨left', variant, -, hfind, hread⟩
    obtain ⟨b, hcontent⟩ := h variant (Variant.mem_of_find hfind)
    refine bind_eq_ok.mpr ⟨variant, hfind, ?_⟩
    rw [Variant.shape, hcontent] at hread
    rw [Variant.bare, hcontent]
    exact hread

/-- The operator with one operand is read alike from its name and from the mapping of the name. -/
lemma minusShape_name_iff (name : String) (left : Nat) (a : Unit) :
    minusShape 1 (left + 1) (.string name) = .ok a ↔
      minusShape 1 (left + 1) (.variant name .null) = .ok a :=
  Shape.choice_name_iff (by simp [Variant.unit]) name left a

/-- An operator with two operands is read alike from its name and from the mapping of the name. -/
lemma BinaryOp.shape_name_iff (name : String) (left : Nat) (a : BinaryOp) :
    BinaryOp.shape 1 (left + 1) (.string name) = .ok a ↔
      BinaryOp.shape 1 (left + 1) (.variant name .null) = .ok a :=
  Shape.choice_name_iff (by simp [Variant.unit]) name left a

/-- An operation respects its form if its operands respect theirs. -/
lemma Record.Respects.variant_operation {α β τ : Type} {operator : Shape α} {rest : Record τ}
    {operands : List Form} {choiceName name : String} {g : Mark × α × τ → β}
    (h : Record.Respects [] rest (operands.map fun f => ("", f)))
    (hoperator : ∀ name left a, operator (left + 1) (.string name) = .ok a ↔
      operator (left + 1) (.variant name .null) = .ok a) (operators : List String) :
    (Variant.tuple choiceName name
        (.cons (part Mark.shape) (.cons (part operator) rest)) g).shape.Respects
      (.operation operators operands) := by
  have hparts : Record.Respects [] (.cons (part Mark.shape) (.cons (part operator) rest))
      ((.mark :: .scalar :: operands).map fun f => ("", f)) :=
    .field Mark.respects_shape (.field Shape.respects_scalar h)
  exact (Record.respects_operation _ (hparts.tuple _) (fun _ _ _ => Mark.shape_levels)
    fun o _ => hoperator o).map g

/-! ### Constructs with bodies -/

/-- A type is read alike from all of its spellings. -/
lemma TypeExpr.respects_shape (depth : Nat) :
    (TypeExpr.shape 1 depth).Respects (.construct .type) := by
  induction depth with
  | zero => exact Shape.respects_never
  | succ depth ih =>
    have hnamed : Record.Respects [] (cons (part Mark.shape) <| cons (part .string) nil)
        ([.mark, .scalar].map fun f => ("", f)) :=
      .field Mark.respects_shape <| .field Shape.respects_scalar .nil
    have harray : Record.Respects [] (cons Mark.field <| cons (required "length" .uint32) <|
        cons (required "base" (TypeExpr.shape 1 depth)) nil)
        [("context", .mark), ("length", .scalar), ("base", .construct .type)] :=
      .field Mark.respects_shape <| .field Shape.respects_scalar <| .field ih .nil
    refine Shape.Respects.construct (Variant.Respect.choice ?_ ?_ 1) (by decide)
    · exact .cons hnamed.variant_tuple (.cons (harray.variant_struct (by decide)) .nil)
    · decide

/-- Variables and expressions are read alike from all of their spellings. -/
lemma Expr.respects_shapes (depth : Nat) :
    (Variable.shape 1 depth).Respects (.construct .place) ∧
      (Expr.shape 1 depth).Respects (.construct .expr) := by
  induction depth with
  | zero => exact ⟨Shape.respects_never, Shape.respects_never⟩
  | succ depth ih =>
    obtain ⟨hplace, hexpr⟩ := ih
    constructor
    · have hnamed : Record.Respects [] (cons (part Mark.shape) <| cons (part .string) nil)
          ([.mark, .scalar].map fun f => ("", f)) :=
        .field Mark.respects_shape <| .field Shape.respects_scalar .nil
      have helement : Record.Respects [] (cons Mark.field <|
          cons (required "array" (Variable.shape 1 depth)) <|
            cons (required "index" (Expr.shape 1 depth)) nil)
          [("context", .mark), ("array", .construct .place), ("index", .construct .expr)] :=
        .field Mark.respects_shape <| .field hplace <| .field hexpr .nil
      refine Shape.Respects.construct (Variant.Respect.choice ?_ ?_ 1) (by decide)
      · exact .cons hnamed.variant_tuple (.cons (helement.variant_struct (by decide)) .nil)
      · decide
    · have hliteral : ∀ {α : Type} (s : Shape α), Record.Respects []
          (cons (part Mark.shape) <| cons (part s) nil) ([.mark, .scalar].map fun f => ("", f)) :=
        fun s => .field Mark.respects_shape <| .field Shape.respects_scalar .nil
      have hread : Record.Respects []
          (cons (part Mark.shape) <| cons (part (Variable.shape 1 depth)) nil)
          ([.mark, .construct .place].map fun f => ("", f)) :=
        .field Mark.respects_shape <| .field hplace .nil
      have hone : Record.Respects [] (cons (part (Expr.shape 1 depth)) nil)
          ([.construct .expr].map fun f => ("", f)) := .field hexpr .nil
      have htwo : Record.Respects []
          (cons (part (Expr.shape 1 depth)) <| cons (part (Expr.shape 1 depth)) nil)
          ([.construct .expr, .construct .expr].map fun f => ("", f)) :=
        .field hexpr <| .field hexpr .nil
      refine Shape.Respects.construct (Variant.Respect.choice ?_ ?_ 1) (by decide)
      · exact .cons (hliteral _).variant_tuple <| .cons (hliteral _).variant_tuple <|
          .cons hread.variant_tuple <| .cons (hone.variant_operation minusShape_name_iff _) <|
            .cons (htwo.variant_operation BinaryOp.shape_name_iff _) .nil
      · decide

/-- A statement is read alike from all of its spellings. -/
lemma Stmt.respects_shape (depth : Nat) : (Stmt.shape 1 depth).Respects (.construct .stmt) := by
  induction depth with
  | zero => exact Shape.respects_never
  | succ depth ih =>
    obtain ⟨hplace, hexpr⟩ := Expr.respects_shapes depth
    have hblock : Record.Respects []
        (cons (part Mark.shape) <| cons (part (.list (Stmt.shape 1 depth))) nil)
        ([.mark, .list (.construct .stmt)].map fun f => ("", f)) :=
      .field Mark.respects_shape <| .field ih.list .nil
    have hassign : Record.Respects [] (cons Mark.field <|
        cons (required "target" (Variable.shape 1 depth)) <|
          cons (required "value" (Expr.shape 1 depth)) nil)
        [("context", .mark), ("target", .construct .place), ("value", .construct .expr)] :=
      .field Mark.respects_shape <| .field hplace <| .field hexpr .nil
    have hif : Record.Respects [("else_part", .null)] (cons Mark.field <|
        cons (required "cond" (Expr.shape 1 depth)) <|
          cons (required "then_part" (Stmt.shape 1 depth)) <|
            cons ⟨"else_part", .optional (Stmt.shape 1 depth), some none, none⟩ nil)
        [("context", .mark), ("cond", .construct .expr), ("then_part", .construct .stmt),
          ("else_part", .optional (.construct .stmt))] := by
      refine .cons Mark.respects_shape ?_ <| .cons hexpr ?_ <| .cons ih ?_ <|
        .cons ih.optional (fun v hv => ?_) .nil
      · simp [Mark.field, required]
      · simp [required]
      · simp [required]
      · cases List.mem_singleton.mp hv
        exact ⟨none, rfl, fun _ => rfl⟩
    have hwhile : Record.Respects [] (cons Mark.field <|
        cons (required "cond" (Expr.shape 1 depth)) <|
          cons (required "body" (Stmt.shape 1 depth)) nil)
        [("context", .mark), ("cond", .construct .expr), ("body", .construct .stmt)] :=
      .field Mark.respects_shape <| .field hexpr <| .field ih .nil
    have hcall : Record.Respects [] (cons Mark.field <| cons (required "procedure" .string) <|
        cons (required "arguments" (.list (Expr.shape 1 depth))) nil)
        [("context", .mark), ("procedure", .scalar), ("arguments", .list (.construct .expr))] :=
      .field Mark.respects_shape <| .field Shape.respects_scalar <| .field hexpr.list .nil
    refine Shape.Respects.construct (Variant.Respect.choice ?_ ?_ 1) (by decide)
    · exact .cons (Mark.respects_shape.map _) <| .cons hblock.variant_tuple <|
        .cons (hassign.variant_struct (by decide)) <|
          .cons ((hif.shape (by decide) (by decide) _).map _) <|
            .cons (hwhile.variant_struct (by decide)) <|
              .cons (hcall.variant_struct (by decide)) .nil
    · decide

/-! ### Programs -/

namespace Nesting

/-- What is written down with a mark, a name and a type is read alike from all of its spellings. -/
lemma respects_named (limit : Nat) :
    Record.Respects [] (cons Mark.field <| cons nameField <| cons (typeField ⟨limit, 1⟩) nil)
      [("context", .mark), ("name", .scalar), ("ty", .construct .type)] :=
  .field Mark.respects_shape <| .field Shape.respects_scalar <|
    .field (TypeExpr.respects_shape _) .nil

/-- A definition of a type is read alike from all of its spellings. -/
lemma respects_typeDef (limit : Nat) : (typeDef ⟨limit, 1⟩).Respects (.construct .typeDef) := by
  exact ((respects_named limit).map_shape (by decide) _ _).construct (by decide)

/-- A parameter is read alike from all of its spellings. -/
lemma respects_parameter (limit : Nat) : (parameter ⟨limit, 1⟩).Respects (.construct .parameter) := by
  have hrecord : Record.Respects []
      (cons Mark.field <| cons nameField <| cons (typeField ⟨limit, 1⟩) <|
        cons (required "is_reference" .bool) nil)
      [("context", .mark), ("name", .scalar), ("ty", .construct .type), ("is_reference", .scalar)] :=
    .field Mark.respects_shape <| .field Shape.respects_scalar <|
      .field (TypeExpr.respects_shape _) <| .field Shape.respects_scalar .nil
  exact (hrecord.map_shape (by decide) _ _).construct (by decide)

/-- A local variable is read alike from all of its spellings. -/
lemma respects_localVar (limit : Nat) : (localVar ⟨limit, 1⟩).Respects (.construct .localVar) := by
  exact ((respects_named limit).map_shape (by decide) _ _).construct (by decide)

/-- A procedure is read alike from all of its spellings. -/
lemma respects_procedure (limit : Nat) : (procedure ⟨limit, 1⟩).Respects (.construct .procedure) := by
  have hrecord : Record.Respects []
      (cons Mark.field <| cons nameField <|
        cons (required "parameters" (.list (parameter ⟨limit, 1⟩))) <|
          cons (required "variables" (.list (localVar ⟨limit, 1⟩))) <|
            cons (required "body" (.list (Stmt.shape 1 (limit + 1)))) nil)
      [("context", .mark), ("name", .scalar), ("parameters", .list (.construct .parameter)),
        ("variables", .list (.construct .localVar)), ("body", .list (.construct .stmt))] :=
    .field Mark.respects_shape <| .field Shape.respects_scalar <|
      .field (respects_parameter limit).list <| .field (respects_localVar limit).list <|
        .field (Stmt.respects_shape _).list .nil
  exact (hrecord.map_shape (by decide) _ _).construct (by decide)

/-- A definition is read alike from all of its spellings. -/
lemma respects_definition (limit : Nat) :
    (definition ⟨limit, 1⟩).Respects (.construct .definition) := by
  refine Shape.Respects.construct (Variant.Respect.choice ?_ ?_ 1) (by decide)
  · exact .cons ((respects_typeDef limit).map _) <| .cons ((respects_procedure limit).map _) .nil
  · decide

/-- A program is read alike before and after an edit of its spelling. -/
lemma respects_program (limit : Nat) : (program ⟨limit, 1⟩).Respects (.construct .program) := by
  have hrecord : Record.Respects []
      (cons (required "definitions" (.list (definition ⟨limit, 1⟩))) nil)
      [("definitions", .list (.construct .definition))] :=
    .field (respects_definition limit).list .nil
  exact (hrecord.map_shape (by decide) _ _).construct (by decide)

/-- A program is read alike from all of its spellings. -/
theorem program_respelled {limit levels : Nat} {v v' : Value} (h : Respelled .program v v')
    (p : Program) : program ⟨limit, 1⟩ levels v = .ok p ↔ program ⟨limit, 1⟩ levels v' = .ok p := by
  induction h with
  | rel v v' hedit => exact respects_program limit v v' hedit levels p
  | refl v => rfl
  | symm v v' _ ih => exact ih.symm
  | trans u v w _ _ ih ih' => exact ih.trans ih'

end Nesting

end TreeCompiler
