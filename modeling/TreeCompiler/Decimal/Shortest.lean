import TreeCompiler.Decimal.Binary64

/-!
# The shortest decimal of a binary number

A number is written with the fewest digits that still read back as the same number, and of those
the digits nearest to it. The notation is positional, with at least one digit on both sides of the
point.
-/

namespace TreeCompiler.Decimal

/-- The decimal `digits * 10 ^ exponent`. -/
structure Scaled where
  digits : Nat
  exponent : Int
deriving DecidableEq, Inhabited

namespace Binary64

/-- Four times the number and four times the two ends of the interval of the reals that round to
it, in units of `2 ^ exponent`. Below a power of two the numbers lie twice as dense. -/
def quarters (x : Binary64) : Nat × Nat × Nat :=
  let m := 4 * x.mantissa
  let gap := if x.mantissa = twoTo 52 ∧ x.exponent > minExponent then 1 else 2
  (m, m - gap, m + 2)

/-- Whether `digits * 10 ^ e` rounds to the number. The ends of the interval do so if the mantissa
is even. -/
def reads (x : Binary64) (digits : Nat) (e : Int) : Bool :=
  let (_, low, high) := x.quarters
  let value := 4 * digits * tenTo e.toNat * twoTo (-x.exponent).toNat
  let unit := tenTo (-e).toNat * twoTo x.exponent.toNat
  if x.mantissa % 2 = 0 then low * unit ≤ value ∧ value ≤ high * unit
  else low * unit < value ∧ value < high * unit

/-- The decimal on the grid of the multiples of `10 ^ e` that reads back as the number and is
nearest to it, if there is one; of two that are equally near, the larger one. -/
def nearestOnGrid (x : Binary64) (e : Int) : Option Scaled :=
  let num := x.ratio.1 * tenTo (-e).toNat
  let den := x.ratio.2 * tenTo e.toNat
  let below := num / den
  let rest := 2 * (num % den)
  match x.reads below e, x.reads (below + 1) e with
  | true, true => some ⟨if rest < den then below else below + 1, e⟩
  | true, false => some ⟨below, e⟩
  | false, true => some ⟨below + 1, e⟩
  | false, false => none

/-- The first grid with a decimal that reads back as the number, from the grid of `10 ^ e` on
toward finer ones. -/
def firstGrid (x : Binary64) : Nat → Int → Option Scaled
  | 0, _ => none
  | n + 1, e => (x.nearestOnGrid e).or (x.firstGrid n (e - 1))

/-- The number of decimal digits before the point. -/
def wholeDigits (x : Binary64) : Nat := (toString (x.ratio.1 / x.ratio.2)).length

/-- The number of grids to try: from the largest power of ten below the number down to the
seventeenth digit of the smallest number. -/
def gridCount : Nat := 700

/-- The shortest decimal that reads back as the number. -/
def shortest (x : Binary64) : Scaled :=
  if x.mantissa = 0 then ⟨0, 0⟩ else (x.firstGrid gridCount x.wholeDigits).getD ⟨0, 0⟩

end Binary64

/-- The decimal in positional notation. -/
def Scaled.positional (d : Scaled) : String :=
  let digits := (toString d.digits).toList
  let zeros (n : Nat) := List.replicate n '0'
  if 0 ≤ d.exponent then String.ofList (digits ++ zeros d.exponent.toNat ++ ['.', '0'])
  else
    let places := (-d.exponent).toNat
    let padded := zeros (places + 1 - digits.length) ++ digits
    let whole := padded.length - places
    String.ofList (padded.take whole ++ ['.'] ++ padded.drop whole)

end TreeCompiler.Decimal
