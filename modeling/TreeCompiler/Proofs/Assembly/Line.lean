import Mathlib.Tactic.SplitIfs
import TreeCompiler.Proofs.Assembly.Operand

/-!
# Reading a line of assembly

A line is taken apart at its tabs, and its operands at their commas (`Assembly.Parts.ofLine?`).
The mnemonic and the number of the operands say how they are read
(`Assembly.Parts.instruction?`).  Since the operands contain no separators, a line is read from
exactly the text that it is written as, if its symbol is a name
(`Assembly.decodeLine_eq_some_iff`).
-/

namespace TreeCompiler

/-! ### The symbol of a line -/

/-- The symbol that stands in a line. -/
def Instruction.name? : Instruction → Option String
  | imports name | exports name | label name | branch _ _ _ name | jump name | call name =>
    some name
  | _ => none

/-- The symbol of a line, if there is one, is a name. -/
def Instruction.WellNamed (i : Instruction) : Prop := ∀ name ∈ i.name?, IsSymbol name

/-- A line without a symbol. -/
lemma Instruction.WellNamed.of_none {i : Instruction} (h : i.name? = none) : i.WellNamed := by
  intro name hname
  rw [h] at hname
  cases hname

/-- A line with a symbol that is a name. -/
lemma Instruction.WellNamed.of_some {i : Instruction} {name : String} (h : i.name? = some name)
    (hsymbol : IsSymbol name) : i.WellNamed := by
  intro other hother
  rw [h] at hother
  cases hother
  exact hsymbol

instance : DecidablePred Instruction.WellNamed :=
  fun i => Option.decidableForallMem (p := IsSymbol) i.name?

namespace Assembly

/-! ### Splitting at separators -/

/-- A character between pieces is the separator or comes from a piece. -/
lemma mem_intercalate {c separator : Char} {pieces : List (List Char)}
    (h : c ∈ [separator].intercalate pieces) : c = separator ∨ ∃ piece ∈ pieces, c ∈ piece := by
  induction pieces with
  | nil => cases h
  | cons piece rest ih =>
    cases rest with
    | nil => exact .inr ⟨piece, List.mem_cons_self, by simpa using h⟩
    | cons next rest =>
      rw [List.intercalate_cons_cons, List.mem_append, List.mem_append, List.mem_singleton] at h
      rcases h with (hpiece | hseparator) | hrest
      · exact .inr ⟨piece, List.mem_cons_self, hpiece⟩
      · exact .inl hseparator
      · exact (ih hrest).imp_right fun ⟨p, hp, hc⟩ => ⟨p, List.mem_cons_of_mem _ hp, hc⟩

/-! ### The parts of a line -/

/-- A line that is taken apart. -/
inductive Parts where
  | label (name : List Char)
  | operation (mnemonic : String) (operands : List (List Char))
deriving DecidableEq

namespace Parts

/-- The pieces of a line between its tabs. -/
def fields : Parts → List (List Char)
  | label name => [name ++ [':']]
  | operation mnemonic [] => [[], mnemonic.toList]
  | operation mnemonic (operand :: operands) =>
    [[], mnemonic.toList, [','].intercalate (operand :: operands)]

/-- The characters of a line with some parts. -/
def line (parts : Parts) : List Char := ['\t'].intercalate parts.fields

/-- The parts that a line consists of. -/
def ofLine? (line : List Char) : Option Parts :=
  match line.splitOn '\t' with
  | [text] => if text.getLast? = some ':' then some (label text.dropLast) else none
  | [[], mnemonic] => some (operation (String.ofList mnemonic) [])
  | [[], mnemonic, operands] =>
    some (operation (String.ofList mnemonic) (operands.splitOn ','))
  | _ => none

/-- Whether parts contain no separators. -/
def Separate : Parts → Prop
  | label name => Unseparated name
  | operation mnemonic operands =>
    Unseparated mnemonic.toList ∧ ∀ operand ∈ operands, Unseparated operand

/-- A line has the parts that are found in it. -/
lemma line_of_ofLine? {text : List Char} {parts : Parts} (h : ofLine? text = some parts) :
    parts.line = text := by
  have htext : ['\t'].intercalate (text.splitOn '\t') = text := List.intercalate_splitOn '\t'
  unfold ofLine? at h
  split at h
  · rename_i piece hfields
    obtain ⟨hcolon, heq⟩ := Option.ite_none_right_eq_some.mp h
    cases heq
    obtain ⟨name, rfl⟩ := List.getLast?_eq_some_iff.mp hcolon
    rw [line, fields, List.dropLast_concat, ← hfields, htext]
  · rename_i mnemonic hfields
    cases h
    rw [line, fields, String.toList_ofList, ← hfields, htext]
  · rename_i mnemonic operands hfields
    cases h
    have hoperands : [','].intercalate (operands.splitOn ',') = operands :=
      List.intercalate_splitOn ','
    cases hsplit : operands.splitOn ',' with
    | nil => exact absurd hsplit (List.splitOn_ne_nil _ _)
    | cons operand rest =>
      rw [line, fields, ← hsplit, hoperands, String.toList_ofList, ← hfields, htext]
  · cases h

/-- The pieces between tabs contain no separators but commas. -/
lemma Separate.not_mem_fields {parts : Parts} {c : Char} (h : parts.Separate)
    (hc : c ∈ separators) (hcomma : c ≠ ',') : ∀ field ∈ parts.fields, c ∉ field := by
  have hnot : ∀ {cs : List Char}, Unseparated cs → c ∉ cs := fun hcs hmem => hcs c hmem hc
  match parts, h with
  | label name, hname =>
    have hcolon : c ≠ ':' := by
      rintro rfl
      exact absurd hc (by decide)
    simpa [fields, hcolon] using hnot hname
  | operation mnemonic [], ⟨hmnemonic, _⟩ =>
    simpa [fields] using hnot hmnemonic
  | operation mnemonic (operand :: operands), ⟨hmnemonic, hoperands⟩ =>
    have hlist : c ∉ [','].intercalate (operand :: operands) := fun hmem =>
      (mem_intercalate hmem).elim hcomma fun ⟨piece, hpiece, hcPiece⟩ =>
        hnot (hoperands piece hpiece) hcPiece
    simpa [fields, hlist] using hnot hmnemonic

/-- There is no line feed in a line. -/
lemma Separate.not_mem_line {parts : Parts} (h : parts.Separate) : '\n' ∉ parts.line := by
  intro hmem
  rcases mem_intercalate hmem with htab | ⟨field, hfield, hfeed⟩
  · cases htab
  · exact h.not_mem_fields (by decide) (by decide) field hfield hfeed

/-- Parts without separators are found in the line that has them. -/
lemma ofLine?_line {parts : Parts} (h : parts.Separate) : ofLine? parts.line = some parts := by
  have hfields : parts.fields ≠ [] := by unfold fields; split <;> exact List.cons_ne_nil _ _
  have hsplit : parts.line.splitOn '\t' = parts.fields :=
    List.splitOn_intercalate '\t' (h.not_mem_fields (by decide) (by decide)) hfields
  unfold ofLine?
  rw [hsplit]
  match parts, h with
  | label name, _ =>
    simp [fields]
  | operation mnemonic [], _ =>
    simp [fields]
  | operation mnemonic (operand :: operands), ⟨_, hoperands⟩ =>
    have hcommas : ([','].intercalate (operand :: operands)).splitOn ',' = operand :: operands :=
      List.splitOn_intercalate ',' (fun o ho hmem => hoperands o ho _ hmem (by decide))
        (List.cons_ne_nil _ _)
    simp [fields, hcommas]

end Parts

/-! ### From parts to lines -/

/-- The arithmetic instruction of a mnemonic. -/
def arithOp? (mnemonic : String) : Option ArithOp :=
  [.add, .sub, .mul, .div, .and, .or].find? fun op => op.mnemonic = mnemonic

/-- The branch of a mnemonic. -/
def branchOp? (mnemonic : String) : Option BranchOp :=
  [.eq, .ne, .lt, .le, .gt, .ge, .geUnsigned].find? fun op => op.mnemonic = mnemonic

/-- The line with a mnemonic and one operand. -/
def unary? (mnemonic : String) (operand : List Char) : Option Instruction :=
  if mnemonic = ".import" then (symbol? operand).map .imports
  else if mnemonic = ".export" then (symbol? operand).map .exports
  else if mnemonic = ".align" then (natural? operand).map .align
  else if mnemonic = "j" then (symbol? operand).map .jump
  else if mnemonic = "jal" then (symbol? operand).map .call
  else if mnemonic = "jr" then (register? operand).map .jumpRegister
  else none

/-- The line with a mnemonic, two registers and another operand. -/
def ternary? (mnemonic : String) (a b : Register) (operand : List Char) : Option Instruction :=
  if mnemonic = "ldw" then (integer? operand).map (.load a b)
  else if mnemonic = "stw" then (integer? operand).map (.store a b)
  else
    match arithOp? mnemonic, branchOp? mnemonic with
    | some op, _ => (operand? operand).map (.arith op a b)
    | none, some op => (symbol? operand).map (.branch op a b)
    | none, none => none

/-- The line with a mnemonic and operands. -/
def operation? (mnemonic : String) : List (List Char) → Option Instruction
  | [] => if mnemonic = ".code" then some .code else none
  | [operand] => unary? mnemonic operand
  | [first, second, third] => do
    let a ← register? first
    let b ← register? second
    ternary? mnemonic a b third
  | _ => none

/-- The line with some parts. -/
def Parts.instruction? : Parts → Option Instruction
  | .label name => (symbol? name).map .label
  | .operation mnemonic operands => operation? mnemonic operands

end Assembly

/-- The parts of a line. -/
def Instruction.parts : Instruction → Assembly.Parts
  | imports name => .operation ".import" [name.toList]
  | exports name => .operation ".export" [name.toList]
  | code => .operation ".code" []
  | align boundary => .operation ".align" [(toString boundary).toList]
  | label name => .label name.toList
  | arith op target left right =>
    .operation op.mnemonic [target.text.toList, left.text.toList, right.text.toList]
  | load target base offset =>
    .operation "ldw" [target.text.toList, base.text.toList, (toString offset).toList]
  | store source base offset =>
    .operation "stw" [source.text.toList, base.text.toList, (toString offset).toList]
  | branch op left right target =>
    .operation op.mnemonic [left.text.toList, right.text.toList, target.toList]
  | jump target => .operation "j" [target.toList]
  | call target => .operation "jal" [target.toList]
  | jumpRegister register => .operation "jr" [register.text.toList]

/-- The text of a line is that of its parts. -/
lemma Instruction.line_parts (i : Instruction) : i.parts.line = i.text.toList := by
  cases i <;> simp [parts, Assembly.Parts.line, Assembly.Parts.fields, text, three]

namespace Assembly

/-- A mnemonic is that of at most one arithmetic instruction. -/
lemma arithOp?_eq_some_iff {mnemonic : String} {op : ArithOp} :
    arithOp? mnemonic = some op ↔ op.mnemonic = mnemonic := by
  constructor
  · intro h
    simpa using List.find?_some h
  · rintro rfl
    cases op <;> rfl

/-- A mnemonic is that of at most one branch. -/
lemma branchOp?_eq_some_iff {mnemonic : String} {op : BranchOp} :
    branchOp? mnemonic = some op ↔ op.mnemonic = mnemonic := by
  constructor
  · intro h
    simpa using List.find?_some h
  · rintro rfl
    cases op <;> rfl

/-- A line is found from its parts. -/
lemma instruction?_parts {i : Instruction} (h : i.WellNamed) : i.parts.instruction? = some i := by
  have hsymbol : ∀ name ∈ i.name?, symbol? name.toList = some name := fun name hname =>
    symbol?_eq_some_iff.mpr ⟨h name hname, rfl⟩
  cases i with
  | code => rfl
  | label name => simp [Instruction.parts, Parts.instruction?, hsymbol name rfl]
  | imports name | exports name | jump name | call name =>
    simp [Instruction.parts, Parts.instruction?, operation?, unary?, hsymbol name rfl]
  | align | jumpRegister => simp [Instruction.parts, Parts.instruction?, operation?, unary?]
  | load | store => simp [Instruction.parts, Parts.instruction?, operation?, ternary?]
  | arith op target left right =>
    have hop : arithOp? op.mnemonic = some op := arithOp?_eq_some_iff.mpr rfl
    have hload : op.mnemonic ≠ "ldw" := by cases op <;> decide
    have hstore : op.mnemonic ≠ "stw" := by cases op <;> decide
    simp [Instruction.parts, Parts.instruction?, operation?, ternary?, hload, hstore, hop]
  | branch op left right target =>
    have harith : arithOp? op.mnemonic = none := by cases op <;> rfl
    have hop : branchOp? op.mnemonic = some op := branchOp?_eq_some_iff.mpr rfl
    have hload : op.mnemonic ≠ "ldw" := by cases op <;> decide
    have hstore : op.mnemonic ≠ "stw" := by cases op <;> decide
    simp [Instruction.parts, Parts.instruction?, operation?, ternary?, hload, hstore, harith, hop,
      hsymbol target rfl]

/-- What is made of a symbol that is read is made of a name. -/
private lemma exists_of_map_symbol? {make : String → Instruction} {operand : List Char}
    {i : Instruction} (h : (symbol? operand).map make = some i) :
    ∃ name, IsSymbol name ∧ name.toList = operand ∧ make name = i := by
  obtain ⟨name, hread, hmake⟩ := Option.map_eq_some_iff.mp h
  obtain ⟨hsymbol, htext⟩ := symbol?_eq_some_iff.mp hread
  exact ⟨name, hsymbol, htext, hmake⟩

/-- A line that is found from one operand has it. -/
lemma parts_of_unary? {mnemonic : String} {operand : List Char} {i : Instruction}
    (h : unary? mnemonic operand = some i) :
    i.WellNamed ∧ i.parts = .operation mnemonic [operand] := by
  unfold unary? at h
  split_ifs at h with himport hexport halign hjump hcall hregister
  · obtain ⟨name, hsymbol, rfl, rfl⟩ := exists_of_map_symbol? h
    exact himport ▸ ⟨.of_some rfl hsymbol, rfl⟩
  · obtain ⟨name, hsymbol, rfl, rfl⟩ := exists_of_map_symbol? h
    exact hexport ▸ ⟨.of_some rfl hsymbol, rfl⟩
  · obtain ⟨n, hn, rfl⟩ := Option.map_eq_some_iff.mp h
    refine ⟨.of_none rfl, ?_⟩
    rw [halign, ← natural?_eq_some_iff.mp hn, Instruction.parts, Nat.toString_eq_repr,
      Nat.toList_repr]
  · obtain ⟨name, hsymbol, rfl, rfl⟩ := exists_of_map_symbol? h
    exact hjump ▸ ⟨.of_some rfl hsymbol, rfl⟩
  · obtain ⟨name, hsymbol, rfl, rfl⟩ := exists_of_map_symbol? h
    exact hcall ▸ ⟨.of_some rfl hsymbol, rfl⟩
  · obtain ⟨r, hr, rfl⟩ := Option.map_eq_some_iff.mp h
    refine ⟨.of_none rfl, ?_⟩
    rw [hregister, ← register?_eq_some_iff.mp hr, Instruction.parts]

/-- A line that is found from two registers and another operand has these. -/
lemma parts_of_ternary? {mnemonic : String} {a b : Register} {operand : List Char}
    {i : Instruction} (h : ternary? mnemonic a b operand = some i) :
    i.WellNamed ∧ i.parts = .operation mnemonic [a.text.toList, b.text.toList, operand] := by
  unfold ternary? at h
  split_ifs at h with hload hstore
  · obtain ⟨offset, hoffset, rfl⟩ := Option.map_eq_some_iff.mp h
    obtain rfl := integer?_eq_some_iff.mp hoffset
    exact hload ▸ ⟨.of_none rfl, rfl⟩
  · obtain ⟨offset, hoffset, rfl⟩ := Option.map_eq_some_iff.mp h
    obtain rfl := integer?_eq_some_iff.mp hoffset
    exact hstore ▸ ⟨.of_none rfl, rfl⟩
  · split at h
    · rename_i op _ hop
      obtain ⟨o, ho, rfl⟩ := Option.map_eq_some_iff.mp h
      obtain rfl := operand?_eq_some_iff.mp ho
      exact arithOp?_eq_some_iff.mp hop ▸ ⟨.of_none rfl, rfl⟩
    · rename_i op _ hop
      obtain ⟨name, hsymbol, rfl, rfl⟩ := exists_of_map_symbol? h
      exact branchOp?_eq_some_iff.mp hop ▸ ⟨.of_some rfl hsymbol, rfl⟩
    · cases h

/-- A line that is found from parts has these parts. -/
lemma parts_of_instruction? {parts : Parts} {i : Instruction} (h : parts.instruction? = some i) :
    i.WellNamed ∧ i.parts = parts := by
  match parts, h with
  | .label text, h =>
    obtain ⟨name, hsymbol, rfl, rfl⟩ := exists_of_map_symbol? h
    exact ⟨.of_some rfl hsymbol, rfl⟩
  | .operation mnemonic [], h =>
    obtain ⟨rfl, heq⟩ := Option.ite_none_right_eq_some.mp h
    cases heq
    exact ⟨.of_none rfl, rfl⟩
  | .operation mnemonic [operand], h => exact parts_of_unary? h
  | .operation mnemonic [first, second, third], h =>
    obtain ⟨a, ha, hrest⟩ := Option.bind_eq_some_iff.mp h
    obtain ⟨b, hb, hternary⟩ := Option.bind_eq_some_iff.mp hrest
    rw [← register?_eq_some_iff.mp ha, ← register?_eq_some_iff.mp hb]
    exact parts_of_ternary? hternary

/-- The parts of a line whose symbol is a name contain no separators. -/
lemma separate_parts {i : Instruction} (h : i.WellNamed) : i.parts.Separate := by
  have hsymbol : ∀ name ∈ i.name?, Unseparated name.toList := fun name hname =>
    unseparated_symbol (h name hname)
  have hthree : ∀ {a b : Register} {operand : List Char}, Unseparated operand →
      ∀ o ∈ [a.text.toList, b.text.toList, operand], Unseparated o := by
    intro a b operand hoperand
    simp [unseparated_register, hoperand]
  cases i with
  | code => exact ⟨by decide, List.forall_mem_nil _⟩
  | label name => exact hsymbol name rfl
  | imports name | exports name | jump name | call name =>
    exact ⟨by decide, List.forall_mem_singleton.mpr (hsymbol name rfl)⟩
  | align n => exact ⟨by decide, List.forall_mem_singleton.mpr (unseparated_natural n)⟩
  | jumpRegister r => exact ⟨by decide, List.forall_mem_singleton.mpr (unseparated_register r)⟩
  | load a b offset | store a b offset => exact ⟨by decide, hthree (unseparated_integer offset)⟩
  | arith op a b right => exact ⟨by cases op <;> decide, hthree (unseparated_operand right)⟩
  | branch op a b target => exact ⟨by cases op <;> decide, hthree (hsymbol target rfl)⟩

/-! ### From text to a line -/

/-- The line that a text without a line feed writes. -/
def decodeLine (text : List Char) : Option Instruction :=
  (Parts.ofLine? text).bind Parts.instruction?

/-- A line is read from its text, and from no other. -/
lemma decodeLine_eq_some_iff {text : List Char} {i : Instruction} :
    decodeLine text = some i ↔ i.WellNamed ∧ i.text.toList = text := by
  constructor
  · intro h
    obtain ⟨parts, hparts, hi⟩ := Option.bind_eq_some_iff.mp h
    obtain ⟨hnamed, rfl⟩ := parts_of_instruction? hi
    exact ⟨hnamed, i.line_parts ▸ Parts.line_of_ofLine? hparts⟩
  · rintro ⟨hnamed, rfl⟩
    rw [decodeLine, ← i.line_parts, Parts.ofLine?_line (separate_parts hnamed)]
    exact instruction?_parts hnamed

end Assembly

end TreeCompiler
