import TreeCompiler.Json.Compact
import TreeCompiler.Proofs.Reading.Parsed

/-!
# The compact text of a value

The compact text of a value without faults is a JSON text of the value
(`Writable.says_valueText`).  So it is parsed as the value (`parse_compact`), and it nests as deep as
the value (`nesting_compact`).
-/

namespace TreeCompiler.Json

/-! ### Quoted texts -/

/-- The digits of a control character's escape have its value. -/
private lemma escapeControl_digits : ∀ n < 32,
    baseValue? 16 ['0', '0', Nat.digitChar (n / 16), Nat.digitChar (n % 16)] = some n := by
  decide

/-- A character as it is written stands for the character. -/
lemma exists_sign_escapeChar (c : Char) : ∃ sign, SignText (escapeChar c) sign ∧
    ∀ rest, meaning none (sign :: rest) = (meaning none rest).map (c :: ·) := by
  by_cases hletter : c ∈ ['"', '\\', '\x08', '\x0c', '\n', '\r', '\t']
  · refine ⟨.char c, ?_, fun _ => rfl⟩
    simp only [List.mem_cons, List.not_mem_nil, or_false] at hletter
    rcases hletter with rfl | rfl | rfl | rfl | rfl | rfl | rfl
    all_goals exact .short (by decide)
  simp only [List.mem_cons, List.not_mem_nil, or_false, not_or] at hletter
  obtain ⟨hquote, hslash, hb, hf, hn, hr, ht⟩ := hletter
  by_cases hcontrol : c.toNat < 32
  · have hescape : escapeChar c = escapeControl c := by
      rw [escapeChar, if_neg hquote, if_neg hslash, if_neg hb, if_neg hf, if_neg hn, if_neg hr,
        if_neg ht, if_pos hcontrol]
    refine ⟨.unit c.toNat, hescape ▸ .unit rfl (escapeControl_digits _ hcontrol), fun rest => ?_⟩
    have hlead : ¬IsLead c.toNat := fun h => absurd h.1 (by omega)
    have htrail : ¬IsTrail c.toNat := fun h => absurd h.1 (by omega)
    rw [meaning, if_neg hlead, if_neg htrail, Char.ofNat_toNat]
  · have hescape : escapeChar c = [c] := by
      rw [escapeChar, if_neg hquote, if_neg hslash, if_neg hb, if_neg hf, if_neg hn, if_neg hr,
        if_neg ht, if_neg hcontrol]
    exact ⟨.char c, hescape ▸ .plain hquote hslash (Nat.le_of_not_lt hcontrol), fun _ => rfl⟩

/-- The characters of a text as they are written mean the text. -/
lemma exists_signs_escapedChars (cs : List Char) :
    ∃ signs, SignsText (cs.flatMap escapeChar) signs ∧ meaning none signs = some cs := by
  induction cs with
  | nil => exact ⟨[], .nil, rfl⟩
  | cons c rest ih =>
    obtain ⟨sign, hsign, hmeaning⟩ := exists_sign_escapeChar c
    obtain ⟨signs, hsigns, hrest⟩ := ih
    refine ⟨sign :: signs, .cons hsign hsigns, ?_⟩
    rw [hmeaning, hrest]
    rfl

/-- A text as it is written is a quoted text. -/
lemma says_quotedText (s : String) : Says (quotedText s) (.string s) := by
  obtain ⟨signs, hsigns, hmeaning⟩ := exists_signs_escapedChars s.toList
  have hquoted : quotedOf signs = .ofString s := by
    rw [quotedOf, hmeaning]
    exact congrArg QuotedText.ofString String.ofList_toList
  have htext := Says.quoted hsigns
  rw [hquoted] at htext
  exact htext

/-! ### Numbers -/

/-- The digits of a positive number start with one that is not zero, and the number is their
value. -/
lemma exists_digits {n : Nat} (hn : 0 < n) :
    ∃ d ds, Nat.toDigits 10 n = (d :: ds).map Nat.digitChar ∧ d ≠ 0 ∧ (∀ k ∈ d :: ds, k < 10) ∧
      digitsValue 0 (d :: ds) = n := by
  induction n using Nat.strongRecOn with
  | ind n ih =>
    by_cases hsmall : n < 10
    · refine ⟨n, [], Nat.toDigits_of_lt_base hsmall, by omega, ?_, ?_⟩
      · intro k hk
        rw [List.mem_singleton.mp hk]
        exact hsmall
      · rw [digitsValue, List.foldl_cons, List.foldl_nil]
        omega
    · -- The last digit is split off; the number in front of it is positive.
      obtain ⟨d, ds, hdigits, hd, hbound, hvalue⟩ := ih (n / 10) (by omega) (by omega)
      refine ⟨d, ds ++ [n % 10], ?_, hd, ?_, ?_⟩
      · rw [Nat.toDigits_of_base_le (by decide) (by omega), hdigits, ← List.cons_append,
          List.map_append]
        rfl
      · intro k hk
        rw [← List.cons_append, List.mem_append, List.mem_singleton] at hk
        rcases hk with hk | rfl
        · exact hbound k hk
        · omega
      · rw [digitsValue] at hvalue
        rw [digitsValue, ← List.cons_append, List.foldl_append, hvalue, List.foldl_cons,
          List.foldl_nil]
        omega

/-- The digits of a number without a fraction and an exponent. -/
lemma exists_numeral (negative : Bool) {n : Nat} (hn : 0 < n) : ∃ digits, digitsValue 0 digits = n ∧
    Numeral (minusText negative ++ Nat.toDigits 10 n) ⟨negative, digits, none, none⟩ := by
  obtain ⟨d, ds, hdigits, hd, hbound, hvalue⟩ := exists_digits hn
  refine ⟨d :: ds, hvalue, ?_⟩
  have hwhole : WholeDigits (d :: ds) :=
    ⟨⟨List.cons_ne_nil d ds, hbound⟩, fun h => absurd (Option.some.inj h) hd⟩
  have hnumeral : Numeral _ ⟨negative, d :: ds, none, none⟩ := .intro hwhole .absent .absent
  rw [List.append_nil, List.append_nil, digitsText, ← hdigits] at hnumeral
  exact hnumeral

/-- An integer that is not negative and fits into 64 bits. -/
lemma says_natural {n : Nat} (h : n ≤ maxNatural) :
    Says (numberText (.natural n)) (.scalar (.number (.ok (.natural n)))) := by
  obtain ⟨digits, hvalue, hnumeral⟩ : ∃ digits, digitsValue 0 digits = n ∧
      Numeral (numberText (.natural n)) ⟨false, digits, none, none⟩ := by
    rcases Nat.eq_zero_or_pos n with rfl | hpos
    · have hzero : WholeDigits [0] := ⟨⟨List.cons_ne_nil 0 [], by decide⟩, fun _ => rfl⟩
      have hnumeral : Numeral (minusText false ++ _) ⟨false, [0], none, none⟩ :=
        .intro hzero .absent .absent
      exact ⟨[0], rfl, hnumeral⟩
    · exact exists_numeral false hpos
  have hnumber : NumberText.value ⟨false, digits, none, none⟩ = .ok (.natural n) := by
    rw [NumberText.value]
    dsimp only
    rw [if_neg Bool.false_ne_true, hvalue, if_pos h]
  exact hnumber ▸ .number hnumeral

/-- A negative integer that fits into 64 bits. -/
lemma says_negative {i : Int} (hlow : -maxNegative ≤ i) (hhigh : i < 0) :
    Says (numberText (.negative i)) (.scalar (.number (.ok (.negative i)))) := by
  obtain ⟨digits, hvalue, hnumeral⟩ := exists_numeral true (n := (-i).toNat) (by omega)
  have htext : numberText (.negative i) = minusText true ++ Nat.toDigits 10 (-i).toNat := by
    rw [numberText, Int.toString_eq_repr, Int.repr_eq_if, if_neg (by omega), String.toList_append,
      Nat.toList_repr]
    rfl
  have hnumber : NumberText.value ⟨true, digits, none, none⟩ = .ok (.negative i) := by
    have hback : -((-i).toNat : Int) = i := by omega
    rw [NumberText.value]
    dsimp only
    rw [if_pos rfl, hvalue, if_pos (by omega), hback]
  rw [htext, ← hnumber]
  exact .number hnumeral

/-- An integer within 64 bits as it is written is the integer. -/
lemma says_int {i : Int} (low : -maxNegative ≤ i) (high : i ≤ maxNatural) :
    Says (valueText (.int i)) (.int i) := by
  rw [Value.int]
  split
  · exact says_natural (by omega)
  · exact says_negative low (by omega)

/-! ### Values -/

/-- A value that a text can hold: a value without faults whose integers fit into 64 bits. -/
inductive Writable : Value → Prop where
  | null : Writable .null
  | bool (b : Bool) : Writable (.bool b)
  | int {i : Int} (low : -maxNegative ≤ i) (high : i ≤ maxNatural) : Writable (.int i)
  | string (s : String) : Writable (.string s)
  | list {values : List Value} (parts : ∀ v ∈ values, Writable v) : Writable (.list values)
  | object {fields : List (String × Value)} (parts : ∀ f ∈ fields, Writable f.2) :
    Writable (.object fields)

/-- The text of a list has commas between its items. -/
lemma itemsText_append (values : List Value) :
    itemsText (.append values .done) = commaText (values.map valueText) := by
  match values with
  | [] => rfl
  | [v] =>
    change valueText v ++ [] = valueText v
    rw [List.append_nil]
  | v :: w :: rest =>
    change valueText v ++ ',' :: itemsText (.append (w :: rest) .done) = _
    rw [itemsText_append]
    rfl

/-- The field of an object as it is written. -/
def writtenMember (f : String × Value) : Member :=
  ⟨quotedText f.1, .ofString f.1, valueText f.2, f.2⟩

/-- The text of an object has commas between its fields. -/
lemma fieldsText_named (fields : List (String × Value)) :
    fieldsText (.named fields) = commaText (fields.map fun f => (writtenMember f).text) := by
  match fields with
  | [] => rfl
  | [f] =>
    change quotedText f.1 ++ ':' :: (valueText f.2 ++ []) = quotedText f.1 ++ ':' :: valueText f.2
    rw [List.append_nil]
  | f :: g :: rest =>
    change quotedText f.1 ++ ':' :: (valueText f.2 ++ ',' :: fieldsText (.named (g :: rest))) =
      (quotedText f.1 ++ ':' :: valueText f.2) ++
        ',' :: commaText ((g :: rest).map fun f => (writtenMember f).text)
    rw [fieldsText_named, List.append_assoc]
    rfl

/-- The compact text of a value is a text of the value. -/
lemma Writable.says_valueText {v : Value} (h : Writable v) : Says (valueText v) v := by
  induction h with
  | null => exact .null
  | bool b =>
    have htext := Says.bool b
    cases b <;> exact htext
  | int low high => exact says_int low high
  | string s => exact says_quotedText s
  | list _ ih =>
    rw [Value.list, valueText, itemsText_append]
    exact .listOf ih
  | @object fields _ ih =>
    have hkeys : ∀ m ∈ fields.map writtenMember, Says m.keyText (.scalar (.quoted m.key)) := by
      intro m hm
      obtain ⟨f, -, rfl⟩ := List.mem_map.mp hm
      exact says_quotedText f.1
    have hvalues : ∀ m ∈ fields.map writtenMember, Says m.valueText m.value := by
      intro m hm
      obtain ⟨f, hf, rfl⟩ := List.mem_map.mp hm
      exact ih f hf
    have htext := Says.objectOf hkeys hvalues
    rw [List.map_map, List.map_map] at htext
    change Says ('{' :: (fieldsText (.named fields) ++ ['}'])) (.mapping (.named fields))
    rw [fieldsText_named]
    exact htext

/-! ### Texts -/

/-- The compact text of an object is a text of the object. -/
lemma says_compact {fields : List (String × Value)} (h : ∀ f ∈ fields, Writable f.2) :
    Says (compact (.object fields)).toList (.object fields) := by
  rw [compact, String.toList_ofList]
  exact (Writable.object h).says_valueText

/-- The tokens of the compact text of an object are those of the object. -/
lemma tokens_compact {fields : List (String × Value)} (h : ∀ f ∈ fields, Writable f.2) :
    tokens (compact (.object fields)).toUTF8.toList = valueTokens (.object fields) := by
  rw [compact, toList_toUTF8_ofList]
  exact (Writable.object h).says_valueText.completes.tokens_eq

/-- The compact text of an object nests as deep as the object. -/
lemma nesting_compact {fields : List (String × Value)} (h : ∀ f ∈ fields, Writable f.2) :
    nesting (compact (.object fields)) = (Value.object fields).levels := by
  have hnesting := nestingFrom_valueTokens (.object fields) 0 []
  rw [List.append_nil, nestingFrom] at hnesting
  rw [nesting, tokens_compact h, hnesting]
  omega

/-- The compact text of an object says the object. -/
lemma parse_compact {fields : List (String × Value)} (h : ∀ f ∈ fields, Writable f.2) :
    parse (compact (.object fields)).toUTF8.toList = ⟨.object fields, false⟩ := by
  rw [compact, toList_toUTF8_ofList]
  exact (Writable.object h).says_valueText.parse

end TreeCompiler.Json
