/-!
# Signed machine words

Sizes and offsets are integers that have to fit into a signed word of 32 bits. They are computed
as integers; `Word.check` is where a result that does not fit is caught.
-/

namespace TreeCompiler.Word

/-- The bytes of a word. -/
def size : Nat := 4

/-- The largest signed word. -/
def max : Int := 2147483647

/-- The smallest signed word. -/
def min : Int := -2147483648

/-- An integer, if it is a signed word. -/
def check (i : Int) : Option Int := if min ≤ i ∧ i ≤ max then some i else none

theorem check_eq_some_iff {i j : Int} : check i = some j ↔ i = j ∧ min ≤ i ∧ i ≤ max := by
  unfold check
  split <;> grind

theorem check_eq_none_iff {i : Int} : check i = none ↔ i < min ∨ max < i := by
  unfold check
  split <;> grind

/-- The negation of a signed word. The smallest word is its own negation, because the number that it
should be is not a signed word. -/
def negate (i : Int) : Int := if i = min then min else -i

/-- An offset or size that may be absent, as listings show it. -/
def showOption : Option Int → String
  | some i => toString i
  | none => "NULL"

end TreeCompiler.Word
