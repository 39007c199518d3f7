import Mathlib.Tactic.Lemma
import TreeCompiler.Document.Plain
import TreeCompiler.Json.Number

/-!
# The grammar of JSON texts

`Says cs v` says that the characters `cs` are a JSON text of the value `v`, with white space wherever
there may be some.  The grammar knows nothing of how a text is read.  A text may spell a value in many
ways: white space and the escapes of a quoted text do not matter.

A value can be one that no reader can make use of: a number that is too large, or a quoted text with
half of a surrogate pair.
-/

namespace TreeCompiler.Json

/-- White space between the parts of a text. -/
def Blank (c : Char) : Prop := c = ' ' ∨ c = '\n' ∨ c = '\t' ∨ c = '\r'

/-! ### Quoted texts -/

/-- What a part of a quoted text stands for: a character, or a unit of 16 bits. -/
inductive Sign where
  | char (c : Char)
  | unit (n : Nat)

/-- The letters behind a backslash, with what they stand for. -/
def shortEscapes : List (Char × Char) :=
  [('"', '"'), ('\\', '\\'), ('/', '/'), ('b', '\x08'), ('f', '\x0c'), ('n', '\n'), ('r', '\r'),
    ('t', '\t')]

/-- A part of a quoted text stands for something. -/
inductive SignText : List Char → Sign → Prop
  /-- A character that needs no escape. -/
  | plain {c : Char} (hquote : c ≠ '"') (hslash : c ≠ '\\') (hcontrol : 0x20 ≤ c.toNat) :
    SignText [c] (.char c)
  /-- A backslash and a letter. -/
  | short {letter c : Char} (h : (letter, c) ∈ shortEscapes) : SignText ['\\', letter] (.char c)
  /-- A backslash, the letter u, and four hexadecimal digits. -/
  | unit {digits : List Char} {n : Nat} (hlength : digits.length = 4)
    (hvalue : baseValue? 16 digits = some n) : SignText ('\\' :: 'u' :: digits) (.unit n)

/-- The parts of a quoted text, between its quotation marks. -/
inductive SignsText : List Char → List Sign → Prop
  | nil : SignsText [] []
  | cons {cs rest : List Char} {sign : Sign} {signs : List Sign} (hsign : SignText cs sign)
    (hrest : SignsText rest signs) : SignsText (cs ++ rest) (sign :: signs)

/-- The first half of a surrogate pair. -/
def IsLead (n : Nat) : Prop := 0xD800 ≤ n ∧ n ≤ 0xDBFF

/-- The second half of a surrogate pair. -/
def IsTrail (n : Nat) : Prop := 0xDC00 ≤ n ∧ n ≤ 0xDFFF

instance (n : Nat) : Decidable (IsLead n) := inferInstanceAs (Decidable (_ ∧ _))

instance (n : Nat) : Decidable (IsTrail n) := inferInstanceAs (Decidable (_ ∧ _))

/-- The character of a surrogate pair. -/
def pairChar (lead trail : Nat) : Char :=
  Char.ofNat (0x10000 + (lead - 0xD800) * 0x400 + (trail - 0xDC00))

/-- The characters that the parts of a quoted text stand for, behind the first half of a surrogate pair
or not.  There are none if a surrogate pair is not complete. -/
def meaning : Option Nat → List Sign → Option (List Char)
  | none, [] => some []
  | some _, [] => none
  | none, .char c :: rest => (meaning none rest).map (c :: ·)
  | some _, .char _ :: _ => none
  | none, .unit n :: rest =>
    if IsLead n then meaning (some n) rest
    else if IsTrail n then none
    else (meaning none rest).map (Char.ofNat n :: ·)
  | some lead, .unit n :: rest =>
    if IsTrail n then (meaning none rest).map (pairChar lead n :: ·) else none

/-- The quoted text with some parts. -/
def quotedOf (signs : List Sign) : QuotedText :=
  match meaning none signs with
  | some cs => .ofString (String.ofList cs)
  | none => ⟨.error .malformed, none⟩

/-! ### Numbers -/

/-- The digits of a number. -/
def digitsText (digits : List Nat) : List Char := digits.map Nat.digitChar

/-- At least one digit. -/
def Digits (digits : List Nat) : Prop := digits ≠ [] ∧ ∀ d ∈ digits, d < 10

/-- The whole part of a number starts with a zero only if it is zero. -/
def WholeDigits (digits : List Nat) : Prop :=
  Digits digits ∧ (digits.head? = some 0 → digits = [0])

/-- The fraction of a number, if there is one. -/
inductive FractionText : List Char → Option (List Nat) → Prop
  | absent : FractionText [] none
  | digits {digits : List Nat} (h : Digits digits) :
    FractionText ('.' :: digitsText digits) (some digits)

/-- The sign of an exponent. -/
inductive PowerSign : List Char → Bool → Prop
  | absent : PowerSign [] false
  | plus : PowerSign ['+'] false
  | minus : PowerSign ['-'] true

/-- The exponent of a number, if there is one. -/
inductive PowerText : List Char → Option (Bool × List Nat) → Prop
  | absent : PowerText [] none
  | digits {mark : Char} {sign : List Char} {down : Bool} {digits : List Nat}
    (hmark : mark = 'e' ∨ mark = 'E') (hsign : PowerSign sign down) (h : Digits digits) :
    PowerText (mark :: (sign ++ digitsText digits)) (some (down, digits))

/-- The minus sign of a number. -/
def minusText (negative : Bool) : List Char := if negative then ['-'] else []

/-- A number as it is written. -/
inductive Numeral : List Char → NumberText → Prop
  | intro {negative : Bool} {whole : List Nat} {fraction : Option (List Nat)}
    {power : Option (Bool × List Nat)} {cs cs' : List Char} (hwhole : WholeDigits whole)
    (hfraction : FractionText cs fraction) (hpower : PowerText cs' power) :
    Numeral (minusText negative ++ (digitsText whole ++ (cs ++ cs')))
      ⟨negative, whole, fraction, power⟩

/-! ### Values -/

/-- Parts with commas between them. -/
def commaText : List (List Char) → List Char
  | [] => []
  | [cs] => cs
  | cs :: rest => cs ++ ',' :: commaText rest

/-- A field of an object, as it is written. -/
structure Member where
  keyText : List Char
  key : QuotedText
  valueText : List Char
  value : Value

namespace Member

/-- A key, a colon and a value. -/
def text (m : Member) : List Char := m.keyText ++ ':' :: m.valueText

/-- The field that is written. -/
def field (m : Member) : QuotedText × Value := (m.key, m.value)

end Member

/-- Characters are a JSON text of a value. -/
inductive Says : List Char → Value → Prop
  /-- White space in front of a value. -/
  | before {c : Char} {cs : List Char} {v : Value} (hc : Blank c) (h : Says cs v) : Says (c :: cs) v
  /-- White space behind a value. -/
  | behind {c : Char} {cs : List Char} {v : Value} (h : Says cs v) (hc : Blank c) :
    Says (cs ++ [c]) v
  | null : Says "null".toList .null
  | bool (b : Bool) : Says (if b then "true" else "false").toList (.bool b)
  | number {cs : List Char} {n : NumberText} (h : Numeral cs n) :
    Says cs (.scalar (.number n.value))
  | quoted {cs : List Char} {signs : List Sign} (h : SignsText cs signs) :
    Says ('"' :: (cs ++ ['"'])) (.scalar (.quoted (quotedOf signs)))
  /-- A list without items, which may have white space inside. -/
  | emptyList {blanks : List Char} (h : ∀ c ∈ blanks, Blank c) :
    Says ('[' :: (blanks ++ [']'])) (.list [])
  | list {parts : List (List Char × Value)} (hne : parts ≠ []) (h : ∀ x ∈ parts, Says x.1 x.2) :
    Says ('[' :: (commaText (parts.map Prod.fst) ++ [']'])) (.list (parts.map Prod.snd))
  /-- An object without fields, which may have white space inside. -/
  | emptyObject {blanks : List Char} (h : ∀ c ∈ blanks, Blank c) :
    Says ('{' :: (blanks ++ ['}'])) (.object [])
  | object {members : List Member} (hne : members ≠ [])
    (hkeys : ∀ m ∈ members, Says m.keyText (.scalar (.quoted m.key)))
    (hvalues : ∀ m ∈ members, Says m.valueText m.value) :
    Says ('{' :: (commaText (members.map Member.text) ++ ['}']))
      (.mapping (.append (members.map Member.field) .done))

/-- The text of a list, with or without items. -/
lemma Says.listOf {values : List Value} {written : Value → List Char}
    (h : ∀ v ∈ values, Says (written v) v) :
    Says ('[' :: (commaText (values.map written) ++ [']'])) (.list values) := by
  by_cases hne : values = []
  · subst hne
    exact .emptyList fun c hc => absurd hc List.not_mem_nil
  · have hparts : values.map (fun v => (written v, v)) ≠ [] := by simpa using hne
    have htext := Says.list hparts (fun x hx => by
      obtain ⟨v, hv, rfl⟩ := List.mem_map.mp hx
      exact h v hv)
    simpa [Function.comp_def] using htext

/-- The text of an object, with or without fields. -/
lemma Says.objectOf {members : List Member}
    (hkeys : ∀ m ∈ members, Says m.keyText (.scalar (.quoted m.key)))
    (hvalues : ∀ m ∈ members, Says m.valueText m.value) :
    Says ('{' :: (commaText (members.map Member.text) ++ ['}']))
      (.mapping (.append (members.map Member.field) .done)) := by
  by_cases hne : members = []
  · subst hne
    exact .emptyObject fun c hc => absurd hc List.not_mem_nil
  · exact .object hne hkeys hvalues

end TreeCompiler.Json
