import TreeCompiler.Document.Value

/-!
# Texts without quotes

A text without quotes is what its reader takes it for. To a reader of numbers and words it is no
value if it is `~` or `null`, a truth value if it is `true` or `false`, and an integer if it is
written in decimal digits without leading zeros, or in digits of base 16, 8 or 2 behind `0x`, `0o`
or `0b`, each with or without a sign.
-/

namespace TreeCompiler

/-- The value of a digit in a base up to 16. -/
def baseDigit? (base : Nat) (c : Char) : Option Nat :=
  let value? :=
    if '0' ≤ c ∧ c ≤ '9' then some (c.toNat - '0'.toNat)
    else if 'a' ≤ c ∧ c ≤ 'f' then some (c.toNat - 'a'.toNat + 10)
    else if 'A' ≤ c ∧ c ≤ 'F' then some (c.toNat - 'A'.toNat + 10)
    else none
  value?.filter (· < base)

/-- The value of digits in a base, of which there must be at least one. -/
def baseValue? (base : Nat) (digits : List Char) : Option Nat :=
  if digits.isEmpty then none
  else digits.foldlM (fun n c => (baseDigit? base c).map (base * n + ·)) 0

/-- The value of an integer without its sign. -/
def unsigned? : List Char → Option Nat
  | '0' :: 'x' :: digits => baseValue? 16 digits
  | '0' :: 'o' :: digits => baseValue? 8 digits
  | '0' :: 'b' :: digits => baseValue? 2 digits
  | ['0'] => some 0
  | '0' :: _ => none
  | digits => baseValue? 10 digits

/-- The number that a plain text is. -/
def plainNumber? : List Char → Option Number
  | '-' :: rest => (unsigned? rest).map fun n => if n = 0 then .natural 0 else .negative (-n)
  | '+' :: rest => (unsigned? rest).map .natural
  | text => (unsigned? text).map .natural

/-- What a plain text is to a reader of numbers and words. -/
def plainScalar (text : String) : Scalar :=
  if text = "~" ∨ text = "null" then .word .null none
  else if text = "true" then .word (.bool true) none
  else if text = "false" then .word (.bool false) none
  else
    match plainNumber? text.toList with
    | some n => .number (.ok n)
    | none => .plain text

/-- The value as a reader of numbers and words takes it. -/
def Value.resolved : Value → Value
  | .scalar (.plain text) => .scalar (plainScalar text)
  | v => v

end TreeCompiler
