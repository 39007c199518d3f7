import TreeCompiler.Assembly.Emission
import TreeCompiler.Proofs.Assembly.Line

/-!
# Reading an assembly file

An assembly file is taken apart at its line feeds (`Assembly.decode`).  If the symbols are names,
code is read from exactly the text that it is written as (`Assembly.decode_eq_some_iff`), so that
the text determines the instructions (`assemblyText_determines`).
-/

namespace TreeCompiler

/-- All symbols of the code are names. -/
def Code.WellNamed (code : Code) : Prop := ∀ i ∈ code, i.WellNamed

instance : DecidablePred Code.WellNamed := List.decidableBAll Instruction.WellNamed

/-- A line, with the empty line that comes before it if it starts a section. -/
def Instruction.lines (i : Instruction) : List (List Char) :=
  if i.startsSection then [[], i.text.toList] else [i.text.toList]

/-- The lines of code.  There is an empty one behind the last line feed. -/
def Code.lines (code : Code) : List (List Char) := code.flatMap Instruction.lines ++ [[]]

namespace Assembly

/-! ### Decoding -/

/-- A line in front of the code that follows it.  The line has to start a section if an empty line
comes before it, and must not start one otherwise. -/
def consLine (afterEmpty : Bool) (line : List Char) (code : Option Code) : Option Code := do
  let i ← decodeLine line
  let rest ← code
  if i.startsSection = afterEmpty then some (i :: rest) else none

/-- The code that lines write, of which the last one is empty. -/
def decodeLines : List (List Char) → Option Code
  | [] => none
  | [[]] => some []
  | [] :: line :: rest => consLine true line (decodeLines rest)
  | line :: rest => consLine false line (decodeLines rest)

/-- The code that a text writes. -/
def decode (text : String) : Option Code := decodeLines (text.toList.splitOn '\n')

/-! ### The lines of code -/

/-- The lines of code that starts with a line. -/
lemma lines_cons (i : Instruction) (code : Code) :
    Code.lines (i :: code) = i.lines ++ Code.lines code := by
  rw [Code.lines, List.flatMap_cons, List.append_assoc, Code.lines]

/-- There are lines. -/
lemma lines_ne_nil (code : Code) : Code.lines code ≠ [] :=
  List.append_ne_nil_of_right_ne_nil _ (List.cons_ne_nil _ _)

/-- What a line in front of code gives. -/
lemma consLine_eq_some_iff {afterEmpty : Bool} {line : List Char} {code : Option Code}
    {code' : Code} : consLine afterEmpty line code = some code' ↔
      ∃ i rest, (i.WellNamed ∧ i.text.toList = line) ∧ code = some rest ∧
        i.startsSection = afterEmpty ∧ code' = i :: rest := by
  unfold consLine
  constructor
  · intro h
    obtain ⟨i, hi, hrest⟩ := Option.bind_eq_some_iff.mp h
    obtain ⟨rest, hcode, hcons⟩ := Option.bind_eq_some_iff.mp hrest
    obtain ⟨hsection, heq⟩ := Option.ite_none_right_eq_some.mp hcons
    exact ⟨i, rest, decodeLine_eq_some_iff.mp hi, hcode, hsection, (Option.some.inj heq).symm⟩
  · rintro ⟨i, rest, hi, rfl, hsection, rfl⟩
    rw [decodeLine_eq_some_iff.mpr hi]
    exact if_pos hsection

/-- What is read from lines has these lines. -/
lemma lines_of_decodeLines {lines : List (List Char)} {code : Code}
    (h : decodeLines lines = some code) : code.WellNamed ∧ code.lines = lines := by
  fun_induction decodeLines lines generalizing code with
  | case1 => cases h
  | case2 =>
    cases h
    exact ⟨List.forall_mem_nil _, rfl⟩
  | case3 line rest ih =>
    obtain ⟨i, code, ⟨hi, rfl⟩, hcode, hsection, rfl⟩ := consLine_eq_some_iff.mp h
    obtain ⟨hnamed, rfl⟩ := ih hcode
    refine ⟨List.forall_mem_cons.mpr ⟨hi, hnamed⟩, ?_⟩
    rw [lines_cons, Instruction.lines, hsection]
    rfl
  | case4 line rest _ _ ih =>
    obtain ⟨i, code, ⟨hi, rfl⟩, hcode, hsection, rfl⟩ := consLine_eq_some_iff.mp h
    obtain ⟨hnamed, rfl⟩ := ih hcode
    refine ⟨List.forall_mem_cons.mpr ⟨hi, hnamed⟩, ?_⟩
    rw [lines_cons, Instruction.lines, hsection]
    rfl

/-- Code is read from its lines. -/
lemma decodeLines_lines {code : Code} (h : code.WellNamed) :
    decodeLines code.lines = some code := by
  induction code with
  | nil => rfl
  | cons i code ih =>
    obtain ⟨hi, hcode⟩ := List.forall_mem_cons.mp h
    have hcons : ∀ afterEmpty, i.startsSection = afterEmpty →
        consLine afterEmpty i.text.toList (decodeLines (Code.lines code)) = some (i :: code) :=
      fun _ hsection => consLine_eq_some_iff.mpr ⟨i, code, ⟨hi, rfl⟩, ih hcode, hsection, rfl⟩
    rw [lines_cons, Instruction.lines]
    cases hsection : i.startsSection with
    | true => exact hcons true hsection
    | false =>
      -- A line is not empty, so that it is not taken for the start of a section.
      have hne : i.text.toList ≠ [] := by
        intro hempty
        cases decodeLine_eq_some_iff.mpr ⟨hi, hempty⟩
      have hlines : decodeLines (i.text.toList :: Code.lines code) =
          consLine false i.text.toList (decodeLines (Code.lines code)) := by
        rw [decodeLines]
        · exact fun hempty _ => hne hempty
        · exact fun _ _ hempty _ => hne hempty
      exact hlines.trans (hcons false hsection)

/-- The text of code consists of its lines, with line feeds between them. -/
lemma toList_assemblyText (code : Code) :
    (assemblyText code).toList = ['\n'].intercalate code.lines := by
  induction code with
  | nil => rfl
  | cons i code ih =>
    have hjoin : (assemblyText (i :: code)).toList =
        i.line.toList ++ (assemblyText code).toList := by
      simp [assemblyText, String.toList_join]
    rw [hjoin, ih, lines_cons, Instruction.line, Instruction.lines]
    obtain ⟨next, rest, hnext⟩ := List.exists_cons_of_ne_nil (lines_ne_nil code)
    rw [hnext]
    split
    · simp [List.intercalate_cons_cons]
    · simp [List.intercalate_cons_cons]

/-- There is no line feed in the lines of code whose symbols are names. -/
lemma not_mem_lines {code : Code} (h : code.WellNamed) : ∀ line ∈ code.lines, '\n' ∉ line := by
  have hempty : '\n' ∉ ([] : List Char) := List.not_mem_nil
  rw [Code.lines, List.forall_mem_append]
  refine ⟨fun line hline => ?_, List.forall_mem_singleton.mpr hempty⟩
  obtain ⟨i, hi, hline⟩ := List.mem_flatMap.mp hline
  have htext : '\n' ∉ i.text.toList := i.line_parts ▸ (separate_parts (h i hi)).not_mem_line
  unfold Instruction.lines at hline
  split at hline
  · rcases List.mem_cons.mp hline with rfl | hline
    · exact hempty
    · exact List.mem_singleton.mp hline ▸ htext
  · exact List.mem_singleton.mp hline ▸ htext

/-- What is read from a text is exactly the code that has the text, if its symbols are names. -/
lemma decode_eq_some_iff {text : String} {code : Code} :
    decode text = some code ↔ code.WellNamed ∧ assemblyText code = text := by
  rw [← String.toList_inj, toList_assemblyText]
  constructor
  · intro h
    obtain ⟨hnamed, hlines⟩ := lines_of_decodeLines h
    exact ⟨hnamed, hlines ▸ List.intercalate_splitOn '\n'⟩
  · rintro ⟨hnamed, htext⟩
    rw [decode, ← htext, List.splitOn_intercalate '\n' (not_mem_lines hnamed) (lines_ne_nil code)]
    exact decodeLines_lines hnamed

end Assembly

/-- The text of an assembly file determines its instructions, if their symbols are names: different
instructions are written as different texts, and there is a decoder that finds the instructions in
their text, and in no other. -/
theorem assemblyText_determines (code code' : Code) (h : code.WellNamed) (h' : code'.WellNamed) :
    (assemblyText code = assemblyText code' ↔ code = code') ∧
      ∀ text, Assembly.decode text = some code ↔ text = assemblyText code := by
  have hdecode : ∀ {c : Code}, c.WellNamed → Assembly.decode (assemblyText c) = some c := fun hc =>
    Assembly.decode_eq_some_iff.mpr ⟨hc, rfl⟩
  refine ⟨⟨fun htext => ?_, congrArg assemblyText⟩, fun text => ⟨fun hread => ?_, ?_⟩⟩
  · rw [← Option.some_inj, ← hdecode h, htext, hdecode h']
  · exact (Assembly.decode_eq_some_iff.mp hread).2.symm
  · rintro rfl
    exact hdecode h

/-- A piece of code in which names are like mnemonics, and a number like a register. -/
def lookalike (right : Operand) (op : BranchOp) : Code :=
  [.code, .exports "j", .label "j", .arith .add ⟨8⟩ ⟨8⟩ right, .branch op ⟨8⟩ ⟨9⟩ "u",
    .load .ra .fp (-12), .jumpRegister .ra]

/-- Texts that differ by a dollar and a letter are those of different instructions, and are read as
these. -/
theorem assemblyText_determines_lookalike :
    (lookalike (.register ⟨9⟩) .ge).WellNamed ∧
      (lookalike (.integer 9) .geUnsigned).WellNamed ∧
      assemblyText (lookalike (.register ⟨9⟩) .ge) ≠
        assemblyText (lookalike (.integer 9) .geUnsigned) ∧
      Assembly.decode (assemblyText (lookalike (.register ⟨9⟩) .ge)) =
        some (lookalike (.register ⟨9⟩) .ge) := by
  have hnamed : (lookalike (.register ⟨9⟩) .ge).WellNamed := by decide
  have hnamed' : (lookalike (.integer 9) .geUnsigned).WellNamed := by decide
  obtain ⟨hdiffer, hread⟩ := assemblyText_determines _ _ hnamed hnamed'
  exact ⟨hnamed, hnamed', fun htext => absurd (hdiffer.mp htext) (by decide), (hread _).mpr rfl⟩

end TreeCompiler
