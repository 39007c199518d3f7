/-!
# A bank of registers used as a stack

Expressions are evaluated in the registers of a bank, which are handed out and taken back in stack
order. The registers in use are those from `first` up to, not including, `next`.
-/

namespace TreeCompiler

/-- The registers from `first` to `last`, of which those below `next` are in use. -/
structure RegisterStack where
  first : UInt8
  last : UInt8
  next : UInt8
  highWater : Nat
deriving DecidableEq, Inhabited

namespace RegisterStack

/-- The bank of the registers from `first` to `last`, none of them in use. -/
def ofBank (first last : UInt8) : RegisterStack := ⟨first, last, first, 0⟩

/-- The number of registers in use. -/
def live (s : RegisterStack) : Nat := (s.next - s.first).toNat

/-- Puts the next register into use, if there is one left. -/
def push (s : RegisterStack) : Option (UInt8 × RegisterStack) :=
  if s.next > s.last then none
  else
    let grown := { s with next := s.next + 1 }
    some (s.next, { grown with highWater := max s.highWater grown.live })

/-- Takes back the register that was put into use last, if there is one. -/
def pop (s : RegisterStack) : Option (UInt8 × RegisterStack) :=
  if s.next = s.first then none else some (s.next - 1, { s with next := s.next - 1 })

end RegisterStack

end TreeCompiler
