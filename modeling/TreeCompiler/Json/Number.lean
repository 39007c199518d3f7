import TreeCompiler.Document.Value

/-!
# The value of a JSON number

A number without a fraction and an exponent is an integer if it fits into 64 bits, with or without
a sign; every other number, and `-0`, is a floating point number. Of the digits of a floating point
number only as many are used as fit into an unsigned integer of 64 bits; the other digits of its
whole part only count as places.
-/

namespace TreeCompiler.Json

/-- The digits of a number. -/
structure NumberText where
  negative : Bool
  whole : List Nat
  fraction : Option (List Nat)
  power : Option (Bool × List Nat)
deriving DecidableEq, Inhabited

/-- The largest unsigned integer of 64 bits. -/
def maxNatural : Nat := 18446744073709551615

/-- The largest distance from zero of a negative integer of 64 bits. -/
def maxNegative : Nat := 9223372036854775808

/-- The largest exponent that is counted. -/
def maxPower : Nat := 2147483647

/-- The value of a list of digits, read on from a value. -/
def digitsValue (start : Nat) (digits : List Nat) : Nat :=
  digits.foldl (fun n d => 10 * n + d) start

/-- Reads digits on from a value as long as it fits into 64 bits; the rest of the digits is
returned with it. -/
def takeDigits (start : Nat) : List Nat → Nat × List Nat
  | [] => (start, [])
  | d :: rest =>
    if 10 * start + d ≤ maxNatural then takeDigits (10 * start + d) rest else (start, d :: rest)

namespace NumberText

/-- The value of a floating point number. -/
def floatValue (n : NumberText) : Except NumberFlaw Number :=
  let (whole, skipped) := takeDigits 0 n.whole
  let fraction := n.fraction.getD []
  let (significand, unused) := takeDigits whole fraction
  let places : Int := skipped.length - (fraction.length - unused.length : Nat)
  let (down, power) := n.power.getD (false, [])
  let power := digitsValue 0 power
  if power > maxPower ∧ down = false ∧ significand ≠ 0 then .error .tooLarge
  else if power > maxPower then .ok (.float n.negative .zero)
  else
    let exponent := if down then places - power else places + power
    match Decimal.Binary64.ofScientific significand exponent with
    | some magnitude => .ok (.float n.negative magnitude)
    | none => .error .tooLarge

/-- The value of a number. -/
def value (n : NumberText) : Except NumberFlaw Number :=
  match n.fraction, n.power with
  | none, none =>
    let whole := digitsValue 0 n.whole
    if n.negative then
      if 1 ≤ whole ∧ whole ≤ maxNegative then .ok (.negative (-whole)) else n.floatValue
    else if whole ≤ maxNatural then .ok (.natural whole)
    else n.floatValue
  | _, _ => n.floatValue

end NumberText

end TreeCompiler.Json
