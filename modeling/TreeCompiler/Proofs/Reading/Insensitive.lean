import TreeCompiler.Proofs.Reading.RoundTrip
import TreeCompiler.Proofs.Reading.Spelling

/-!
# Reading is insensitive to spelling

Two JSON texts spell the same program if the values that they say are spellings of the same program;
white space and escapes do not matter.  A program is read from the one if and only if it is read from the
other (`Program.read_respelled`).
-/

namespace TreeCompiler

/-- A text says only one value. -/
theorem Json.Says.unique {cs : List Char} {v v' : Value} (h : Json.Says cs v) (h' : Json.Says cs v') :
    v = v' := by
  have hparse := h.parse
  rw [h'.parse] at hparse
  exact (congrArg Document.root hparse).symm

/-- Edits are made one after another. -/
instance (c : Construct) : Trans (Respelled c) (Respelled c) (Respelled c) where
  trans := Relation.EqvGen.trans _ _ _

namespace Program

/-- Two texts spell the same program. -/
def Respells (t t' : String) : Prop :=
  ∃ v v', Json.Says t.toList v ∧ Json.Says t'.toList v' ∧ Respelled .program v v'

/-- Texts that are spelt in the same way as a third one spell the same program. -/
theorem Respells.trans {t u w : String} (h : Respells t u) (h' : Respells u w) : Respells t w := by
  obtain ⟨v, v', ht, hu, hedits⟩ := h
  obtain ⟨v'', v''', hu', hw, hedits'⟩ := h'
  cases hu.unique hu'
  exact ⟨v, v''', ht, hw, hedits.trans _ _ _ hedits'⟩

/-- A program is read from a text of a value if it is read from the value. -/
lemma read_eq_ok {t : String} {v : Value} (h : Json.Says t.toList v) {p : Program} :
    read t.toUTF8.toList .json = .ok p ↔ Nesting.program ⟨127, 1⟩ 127 v = .ok p := by
  have hparse := h.parse
  rw [← Json.toList_toUTF8_ofList, String.ofList_toList] at hparse
  rw [read]
  change (Json.parse _).program ⟨127, 1⟩ = _ ↔ _
  rw [hparse]
  change (Nesting.program ⟨127, 1⟩ 127 v).bind _ = _ ↔ _
  constructor
  · intro hread
    obtain ⟨q, hq, heq⟩ := bind_eq_ok.mp hread
    cases heq
    exact hq
  · intro hread
    exact bind_eq_ok.mpr ⟨p, hread, rfl⟩

/-! ### The spellings of a synonym -/

/-- A synonym for the type of integers. -/
def synonym : List Definition := [.type ⟨⟨0, 0⟩, "A", .named ⟨0, 0⟩ "int"⟩]

/-- The value of a program with a single type definition, with its fields in some order. -/
def ofTypeDef (fields : List (String × Value)) : Value :=
  .object [("definitions", .list [.variant "Type" (.object fields)])]

/-- The fields of the synonym, with its own mark and that of its type. -/
def synonymFields (mark inner : Value) : List (String × Value) :=
  [("context", mark), ("name", .string "A"), ("ty", .variant "Named" (.list [inner, .string "int"]))]

/-- The synonym as a list, with its fields in another order; its mark is an empty list, and the mark of
its type has a number but no line. -/
def synonymValue : Value :=
  .list [.list [.variant "Type" (.object (synonymFields (.list []) (.object [("id", .int 7)])).reverse)]]

/-- A program with a type definition is respelled if the definition is. -/
lemma respelled_ofTypeDef {fields fields' : List (String × Value)}
    (h : Edit Construct.typeDef.form (.object fields) (.object fields')) :
    Respelled .program (ofTypeDef fields) (ofTypeDef fields') := by
  have hdefinition : Edit (.construct .definition) (.variant "Type" (.object fields))
      (.variant "Type" (.object fields')) :=
    .construct (.content (List.mem_cons_self ..) (.construct h))
  have hlist : Edit (.list (.construct .definition)) (.list ([] ++ [_])) (.list ([] ++ [_])) :=
    .item hdefinition
  exact .rel _ _ (.construct (.field (List.mem_cons_self ..) hlist))

/-- A program becomes the list of its single field. -/
lemma respelled_listed (fields : List (String × Value)) :
    Respelled .program (ofTypeDef fields) (.list [.list [.variant "Type" (.object fields)]]) := by
  have hlength : [Value.list [.variant "Type" (.object fields)]].length =
      [("definitions", Form.list (.construct .definition))].length := rfl
  exact .rel _ _ (.construct (.listed hlength))

/-- The mark of the synonym is respelled. -/
lemma respelled_mark {m m' : Value} (h : Edit .mark m m') (inner : Value) :
    Respelled .program (ofTypeDef (synonymFields m inner)) (ofTypeDef (synonymFields m' inner)) :=
  respelled_ofTypeDef (.field (List.mem_cons_self ..) h)

/-- The fields of the synonym change places. -/
lemma respelled_reverse (fields : List (String × Value)) :
    Respelled .program (ofTypeDef fields) (ofTypeDef fields.reverse) :=
  respelled_ofTypeDef (.permuted fields.reverse_perm.symm)

/-- The mark of the synonym's type is respelled. -/
lemma respelled_inner {m m' : Value} (h : Edit .mark m m') (mark : Value) :
    Respelled .program (ofTypeDef (synonymFields mark m).reverse)
      (ofTypeDef (synonymFields mark m').reverse) := by
  have htuple : Edit (.tuple ([] ++ [.mark, .scalar])) (.list ([] ++ [m, .string "int"]))
      (.list ([] ++ [m', .string "int"])) := .part rfl h
  have htype : Edit (.construct .type) (.variant "Named" (.list [m, .string "int"]))
      (.variant "Named" (.list [m', .string "int"])) :=
    .construct (.content (List.mem_cons_self ..) htuple)
  exact respelled_ofTypeDef (.field (by simp) htype)

/-- The synonym is respelled. -/
lemma respelled_synonym : Respelled .program (ofDefinitions synonym).written synonymValue := by
  have hline : Edit .mark (.object [("line", .int 0)]) (.object []) :=
    .construct (.absent (List.mem_cons_self ..) List.not_mem_nil)
  have hid : Edit .mark (.object []) (.object [("id", .int 7)]) :=
    .construct (.unknown (by decide) rfl)
  calc
    Respelled .program (ofDefinitions synonym).written
        (ofTypeDef (synonymFields (.object []) (.object [("line", .int 0)]))) :=
      respelled_mark hline _
    Respelled .program _ (ofTypeDef (synonymFields (.list []) (.object [("line", .int 0)]))) :=
      respelled_mark .noLine _
    Respelled .program _ (ofTypeDef (synonymFields (.list []) (.object [("line", .int 0)])).reverse) :=
      respelled_reverse _
    Respelled .program _ (ofTypeDef (synonymFields (.list []) (.object [])).reverse) :=
      respelled_inner hline _
    Respelled .program _ (ofTypeDef (synonymFields (.list []) (.object [("id", .int 7)])).reverse) :=
      respelled_inner hid _
    Respelled .program _ synonymValue := respelled_listed _

/-- The other spelling of the synonym can be written. -/
lemma writable_synonymValue : Json.Writable synonymValue := by
  have hid : Json.Writable (.int 7) := .int (by decide) (by decide)
  have hinner : Json.Writable (.object [("id", .int 7)]) := .object (by simp [hid])
  have hmark : Json.Writable (.list []) := .list (by simp)
  have htype : Json.Writable (.variant "Named" (.list [.object [("id", .int 7)], .string "int"])) :=
    writable_variant (.list (by simp [hinner, Json.Writable.string]))
  have hfields : Json.Writable
      (.object (synonymFields (.list []) (.object [("id", .int 7)])).reverse) :=
    .object (by simp [synonymFields, hmark, htype, Json.Writable.string])
  have hdefinition : Json.Writable (.variant "Type" _) := writable_variant hfields
  exact .list (by simp [Json.Writable.list, hdefinition])

/-! ### Reading -/

/-- The same program is read from all of its spellings: fields may change places, unknown fields may be
added and lines that are 0 or a missing `else_part` left out, records may be lists, and operators
mappings; white space and escapes may be any.  None of this makes a text nest deeper where it is read. -/
theorem read_respelled (t t' : String) (h : Respells t t') (p : Program) :
    read t.toUTF8.toList .json = .ok p ↔ read t'.toUTF8.toList .json = .ok p := by
  obtain ⟨v, v', ht, ht', hedits⟩ := h
  rw [read_eq_ok ht, read_eq_ok ht']
  exact Nesting.program_respelled hedits p

/-- The synonym is read from its text, and so it is read from a text of its other spelling. -/
theorem read_respelled_synonym :
    Respells (ofDefinitions synonym).text (String.ofList (' ' :: Json.valueText synonymValue)) ∧
      read (String.ofList (' ' :: Json.valueText synonymValue)).toUTF8.toList .json =
        .ok (ofDefinitions synonym) := by
  have hrespells : Respells (ofDefinitions synonym).text
      (String.ofList (' ' :: Json.valueText synonymValue)) := by
    refine ⟨_, _, Json.says_compact (forall_fields_writable _), ?_, respelled_synonym⟩
    rw [String.toList_ofList]
    exact .before (.inl rfl) writable_synonymValue.says_valueText
  have hnesting : Json.nesting (ofDefinitions synonym).text ≤ 127 := by
    rw [nesting_text]
    decide
  exact ⟨hrespells, (read_respelled _ _ hrespells _).mp (read_text hnesting)⟩

end Program

end TreeCompiler
