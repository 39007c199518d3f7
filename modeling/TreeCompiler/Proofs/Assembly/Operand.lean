import Mathlib.Tactic.Lemma
import TreeCompiler.Assembly.Instruction

/-!
# Reading operands

The operands of an assembly line are names, numbers and registers.  There is a reader for each of
them, and each accepts exactly the texts that its operands are written as
(`symbol?_eq_some_iff`, `natural?_eq_some_iff`, `integer?_eq_some_iff`, `register?_eq_some_iff`,
`operand?_eq_some_iff`).  No operand contains a character that separates the parts of a line
(`Unseparated`), so the operands are found again when the line is split at these characters.
-/

namespace TreeCompiler

/-- A name that may stand in an assembly file: ASCII letters, digits and underscores, at least one
of them. -/
def IsSymbol (name : String) : Prop :=
  name.toList ≠ [] ∧ ∀ c ∈ name.toList, c.isAlphanum = true ∨ c = '_'

instance : DecidablePred IsSymbol := fun _ =>
  @instDecidableAnd _ _ inferInstance (List.decidableBAll _ _)

/-! ### Texts of numbers and registers -/

/-- The digits of a number are digits. -/
lemma isDigit_of_mem_decimal {c : Char} {n : Nat} (hc : c ∈ Nat.toDigits 10 n) :
    c.isDigit = true :=
  Nat.isDigit_of_mem_toDigits (by decide) (by decide) hc

/-- They may stand in a name. -/
lemma isAlphanum_of_mem_decimal {c : Char} {n : Nat} (hc : c ∈ Nat.toDigits 10 n) :
    c.isAlphanum = true := by
  rw [Char.isAlphanum, isDigit_of_mem_decimal hc, Bool.or_true]

/-- The text of an integer that is not negative. -/
lemma toList_toString_ofNat (n : Nat) : (toString (Int.ofNat n)).toList = Nat.toDigits 10 n :=
  Nat.toList_repr

/-- The text of a negative integer. -/
lemma toList_toString_negSucc (n : Nat) :
    (toString (Int.negSucc n)).toList = '-' :: Nat.toDigits 10 (n + 1) := by
  have htext : toString (Int.negSucc n) = "-" ++ (n + 1).repr := rfl
  rw [htext, String.toList_append, Nat.toList_repr]
  rfl

/-- The text of an integer consists of digits and perhaps a minus. -/
lemma isDigit_of_mem_toString {c : Char} {i : Int} (hc : c ∈ (toString i).toList) :
    c = '-' ∨ c.isDigit = true := by
  cases i with
  | ofNat n =>
    rw [toList_toString_ofNat] at hc
    exact .inr (isDigit_of_mem_decimal hc)
  | negSucc n =>
    rw [toList_toString_negSucc, List.mem_cons] at hc
    exact hc.imp_right isDigit_of_mem_decimal

/-- The text of a register. -/
lemma Register.toList_text (r : Register) :
    r.text.toList = '$' :: Nat.toDigits 10 r.number.toNat := by
  have hdigits : (toString r.number.toNat).toList = Nat.toDigits 10 r.number.toNat :=
    Nat.toList_repr
  rw [Register.text, String.toList_append, hdigits]
  rfl

namespace Assembly

variable {cs : List Char}

/-! ### Readers -/

/-- The name that characters spell. -/
def symbol? (cs : List Char) : Option String :=
  if IsSymbol (String.ofList cs) then some (String.ofList cs) else none

/-- The number that digits write.  There is one way to write it, without needless zeros. -/
def natural? (cs : List Char) : Option Nat :=
  if Nat.toDigits 10 (Nat.ofDigitChars 10 cs 0) = cs then some (Nat.ofDigitChars 10 cs 0) else none

/-- The integer that digits write, behind a minus if it is negative. -/
def integer? : List Char → Option Int
  | '-' :: digits => (natural? digits).bind fun n => if n ≠ 0 then some (-n) else none
  | digits => (natural? digits).map Int.ofNat

/-- The register whose number is written behind a dollar. -/
def register? : List Char → Option Register
  | '$' :: digits =>
    (natural? digits).bind fun n => if n < UInt8.size then some ⟨.ofNat n⟩ else none
  | _ => none

/-- The last operand of an arithmetic instruction. -/
def operand? (cs : List Char) : Option Operand :=
  match register? cs with
  | some r => some (.register r)
  | none => (integer? cs).map .integer

/-! ### What is read is what is written -/

lemma symbol?_eq_some_iff {name : String} :
    symbol? cs = some name ↔ IsSymbol name ∧ name.toList = cs := by
  rw [symbol?, Option.ite_none_right_eq_some]
  constructor
  · rintro ⟨hsymbol, heq⟩
    cases heq
    exact ⟨hsymbol, String.toList_ofList⟩
  · rintro ⟨hsymbol, rfl⟩
    rw [String.ofList_toList]
    exact ⟨hsymbol, rfl⟩

lemma natural?_eq_some_iff {n : Nat} : natural? cs = some n ↔ Nat.toDigits 10 n = cs := by
  rw [natural?, Option.ite_none_right_eq_some]
  constructor
  · rintro ⟨hdigits, heq⟩
    cases heq
    exact hdigits
  · rintro rfl
    rw [Nat.ofDigitChars_ten_toDigits]
    exact ⟨rfl, rfl⟩

@[simp]
lemma natural?_toDigits (n : Nat) : natural? (Nat.toDigits 10 n) = some n :=
  natural?_eq_some_iff.mpr rfl

lemma integer?_eq_some_iff {i : Int} : integer? cs = some i ↔ (toString i).toList = cs := by
  constructor
  · intro h
    unfold integer? at h
    split at h
    · rename_i digits
      obtain ⟨n, hn, h⟩ := Option.bind_eq_some_iff.mp h
      obtain ⟨hpositive, heq⟩ := Option.ite_none_right_eq_some.mp h
      cases heq
      obtain ⟨k, rfl⟩ := Nat.exists_eq_succ_of_ne_zero hpositive
      rw [← natural?_eq_some_iff.mp hn]
      exact toList_toString_negSucc k
    · obtain ⟨n, hn, rfl⟩ := Option.map_eq_some_iff.mp h
      rw [toList_toString_ofNat, natural?_eq_some_iff.mp hn]
  · rintro rfl
    cases i with
    | negSucc n =>
      rw [toList_toString_negSucc, integer?, natural?_toDigits]
      rfl
    | ofNat n =>
      rw [toList_toString_ofNat]
      unfold integer?
      split
      · -- The digits of a number do not start with a minus.
        rename_i hminus
        have hmem : '-' ∈ Nat.toDigits 10 n := hminus ▸ List.mem_cons_self
        cases isDigit_of_mem_decimal hmem
      · rw [natural?_toDigits]
        rfl

@[simp]
lemma integer?_repr (i : Int) : integer? i.repr.toList = some i := integer?_eq_some_iff.mpr rfl

lemma register?_eq_some_iff {r : Register} : register? cs = some r ↔ r.text.toList = cs := by
  rw [Register.toList_text]
  constructor
  · intro h
    unfold register? at h
    split at h
    · obtain ⟨n, hn, h⟩ := Option.bind_eq_some_iff.mp h
      obtain ⟨hsize, heq⟩ := Option.ite_none_right_eq_some.mp h
      cases heq
      rw [UInt8.toNat_ofNat_of_lt' hsize, natural?_eq_some_iff.mp hn]
    · cases h
  · rintro rfl
    rw [register?, natural?_toDigits, Option.bind_some, if_pos r.number.toNat_lt,
      UInt8.ofNat_toNat]

@[simp]
lemma register?_text (r : Register) : register? r.text.toList = some r :=
  register?_eq_some_iff.mpr rfl

lemma operand?_eq_some_iff {o : Operand} : operand? cs = some o ↔ o.text.toList = cs := by
  unfold operand?
  constructor
  · intro h
    split at h
    · rename_i r hr
      cases h
      exact register?_eq_some_iff.mp hr
    · obtain ⟨i, hi, rfl⟩ := Option.map_eq_some_iff.mp h
      exact integer?_eq_some_iff.mp hi
  · rintro rfl
    cases o with
    | register r => rw [Operand.text, register?_text]
    | integer i =>
      -- An integer is not taken for a register, because there is no dollar in it.
      have hr : register? (toString i).toList = none := by
        refine Option.eq_none_iff_forall_ne_some.mpr fun r hr => ?_
        have hdollar : '$' ∈ (toString i).toList := by
          rw [← register?_eq_some_iff.mp hr, Register.toList_text]
          exact List.mem_cons_self
        rcases isDigit_of_mem_toString hdollar with h | h <;> cases h
      rw [Operand.text, hr, Int.toString_eq_repr, integer?_repr]
      rfl

@[simp]
lemma operand?_text (o : Operand) : operand? o.text.toList = some o :=
  operand?_eq_some_iff.mpr rfl

/-! ### Separators -/

/-- The characters between the parts of a line, and between lines. -/
def separators : List Char := ['\t', ',', '\n']

/-- A text that stands between separators contains none. -/
def Unseparated (cs : List Char) : Prop := ∀ c ∈ cs, c ∉ separators

instance : DecidablePred Unseparated := fun cs => List.decidableBAll (· ∉ separators) cs

/-- Letters and digits do not separate anything. -/
lemma not_mem_separators {c : Char} (hc : c.isAlphanum = true) : c ∉ separators := by
  intro hmem
  simp only [separators, List.mem_cons, List.not_mem_nil, or_false] at hmem
  rcases hmem with rfl | rfl | rfl <;> cases hc

/-- Nor do the digits of a number. -/
lemma unseparated_toDigits (n : Nat) : Unseparated (Nat.toDigits 10 n) :=
  fun _ hc => not_mem_separators (isAlphanum_of_mem_decimal hc)

lemma unseparated_natural (n : Nat) : Unseparated (toString n).toList := by
  rw [Nat.toString_eq_repr, Nat.toList_repr]
  exact unseparated_toDigits n

lemma unseparated_symbol {name : String} (h : IsSymbol name) : Unseparated name.toList := by
  intro c hc
  rcases h.2 c hc with halphanum | rfl
  · exact not_mem_separators halphanum
  · decide

lemma Unseparated.cons {c : Char} (hc : c ∉ separators) (h : Unseparated cs) :
    Unseparated (c :: cs) :=
  List.forall_mem_cons.mpr ⟨hc, h⟩

lemma unseparated_integer (i : Int) : Unseparated (toString i).toList := by
  cases i with
  | ofNat n =>
    rw [toList_toString_ofNat]
    exact unseparated_toDigits n
  | negSucc n =>
    rw [toList_toString_negSucc]
    exact .cons (by decide) (unseparated_toDigits _)

lemma unseparated_register (r : Register) : Unseparated r.text.toList := by
  rw [Register.toList_text]
  exact .cons (by decide) (unseparated_toDigits _)

lemma unseparated_operand (o : Operand) : Unseparated o.text.toList := by
  cases o with
  | register r => exact unseparated_register r
  | integer i => exact unseparated_integer i

end Assembly

end TreeCompiler
