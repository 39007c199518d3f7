/-!
# Binary floating point numbers of 64 bits

A finite number without its sign is `mantissa * 2 ^ exponent` with a mantissa below `2 ^ 53`. Every
operation computes the exact quotient or product and rounds it once, to the nearest number, and to
an even mantissa where two are equally near.
-/

namespace TreeCompiler.Decimal

/-- A power of two. -/
def twoTo (n : Nat) : Nat := Nat.pow 2 n

/-- A power of ten. -/
def tenTo (n : Nat) : Nat := Nat.pow 10 n

/-- A finite number that is not negative. The mantissa is at least `2 ^ 52` unless the exponent is
the least one. -/
structure Binary64 where
  mantissa : Nat
  exponent : Int
deriving DecidableEq, Inhabited

namespace Binary64

/-- The least exponent. -/
def minExponent : Int := -1074

/-- The largest exponent. -/
def maxExponent : Int := 971

/-- The number zero. -/
def zero : Binary64 := ⟨0, minExponent⟩

/-- The quotient of two numbers, to the nearest integer, and to an even one where two are equally
near. -/
def roundQuotient (num den : Nat) : Nat :=
  let q := num / den
  let rest := 2 * (num % den)
  if rest > den ∨ (rest = den ∧ q % 2 = 1) then q + 1 else q

/-- Numerator and denominator of `num / (den * 2 ^ e)`. -/
def scaleDown (num den : Nat) (e : Int) : Nat × Nat :=
  (num * twoTo (-e).toNat, den * twoTo e.toNat)

/-- The number nearest to `num / den`; there is none if that is too large. -/
def ofRatio (num den : Nat) : Option Binary64 :=
  if num = 0 then some zero
  else
    let guess := max ((num.log2 : Int) - den.log2 - 53) minExponent
    let (n, d) := scaleDown num den guess
    let e := if n / d ≥ twoTo 53 then guess + 1 else guess
    let (n, d) := scaleDown num den e
    let m := roundQuotient n d
    let result : Binary64 := if m ≥ twoTo 53 then ⟨twoTo 52, e + 1⟩ else ⟨m, e⟩
    if result.exponent > maxExponent then none else some result

/-- The number as a numerator and a denominator. -/
def ratio (x : Binary64) : Nat × Nat :=
  (x.mantissa * twoTo x.exponent.toNat, twoTo (-x.exponent).toNat)

/-- The product, unless it is too large. -/
def mul (x y : Binary64) : Option Binary64 :=
  ofRatio (x.ratio.1 * y.ratio.1) (x.ratio.2 * y.ratio.2)

/-- The quotient, unless it is too large. -/
def div (x y : Binary64) : Option Binary64 :=
  ofRatio (x.ratio.1 * y.ratio.2) (x.ratio.2 * y.ratio.1)

/-- The largest power of ten that has an exponent in the table of powers. -/
def maxPower : Nat := 308

/-- The number nearest to a power of ten up to the largest one. -/
def pow10 (n : Nat) : Binary64 := (ofRatio (tenTo n) 1).getD zero

/-- Divides by a power of ten, in steps of the largest power as long as the rest is larger. -/
def divPow10 (x : Binary64) (n : Nat) : Binary64 :=
  if x = zero then zero
  else if n ≤ maxPower then (x.div (pow10 n)).getD zero
  else divPow10 ((x.div (pow10 maxPower)).getD zero) (n - maxPower)
termination_by n
decreasing_by simp only [maxPower] at *; omega

/-- The number `significand * 10 ^ exponent`, rounded after every operation on the way; there is
none if it is too large. -/
def ofScientific (significand : Nat) (exponent : Int) : Option Binary64 := do
  let x ← ofRatio significand 1
  if 0 ≤ exponent then
    if exponent.toNat ≤ maxPower then x.mul (pow10 exponent.toNat)
    else if x = zero then some zero
    else none
  else
    some (x.divPow10 (-exponent).toNat)

end Binary64

end TreeCompiler.Decimal
