import TreeCompiler.Word

/-!
# The layout of a stack frame

From the top down, a procedure's frame holds its arguments (which its caller put there), its local
variables, the saved return address, the saved frame pointer, and the area in which it passes
arguments to the procedures that it calls:

```text
         |  arguments  |  FP + 0 …
  FP ->  +-------------+
         |  locals     |
         |  old RA     |  FP + oldReturnAddress
         |  old FP     |  SP + oldFramePointer
         |  outgoing   |  SP + 0 …
  SP ->  +-------------+
```

A `FrameLayout` holds the three sizes that differ from procedure to procedure, each one absent
until it is known. What follows from them is absent as well where it does not fit into a word.
-/

namespace TreeCompiler

/-- The area for the arguments of the procedures that a procedure calls. -/
inductive OutgoingArea where
  /-- There are no calls, so there is no area and no return address to save. -/
  | noCalls
  /-- The size of the largest argument area of a callee; it is 0 if none has parameters. -/
  | bytes (size : Int)
deriving DecidableEq, Inhabited

/-- The bytes that the area takes. -/
def OutgoingArea.size : OutgoingArea → Int
  | .noCalls => 0
  | .bytes size => size

/-- The sizes of the regions of a stack frame. -/
structure FrameLayout where
  arguments : Option Int := none
  locals : Option Int := none
  outgoing : Option OutgoingArea := none
deriving DecidableEq, Inhabited

namespace FrameLayout

/-- The bytes of the two saved registers. -/
def savedRegisters : Int := 2 * Word.size

/-- Whether the procedure calls others and so has to save its return address. -/
def makesCalls (l : FrameLayout) : Bool :=
  match l.outgoing with
  | some (.bytes _) => true
  | _ => false

/-- What the procedure takes off the stack pointer when it is entered. -/
def frameSize (l : FrameLayout) : Option Int := do
  let locals ← l.locals
  let outgoing ← l.outgoing
  let areas ← Word.check (locals + outgoing.size)
  Word.check (areas + savedRegisters)

/-- Where the caller's frame pointer is saved, from the stack pointer. -/
def oldFramePointer (l : FrameLayout) : Option Int := do
  let outgoing ← l.outgoing
  Word.check (outgoing.size + Word.size)

/-- Where the return address is saved, from the frame pointer. -/
def oldReturnAddress (l : FrameLayout) : Option Int := do
  let locals ← l.locals
  let depth ← Word.check (locals + savedRegisters)
  return -depth

end FrameLayout

end TreeCompiler
