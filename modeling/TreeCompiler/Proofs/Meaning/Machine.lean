import TreeCompiler.Proofs.Meaning.Source

/-!
# What code does

A machine that executes assembly code.  It has a register file, in which `$0` reads 0, and a memory
of words that is addressed by bytes; loads and stores at addresses that are not those of words are
not carried out.  Its place in the code is the code from there on.  The runtime library is called
with its arguments in memory from the stack pointer upward; it keeps the stack pointer, the frame
pointer, and the memory above its arguments except for what its references point to.

What the machine does not decide itself comes with its `Host`: how the runtime library answers and
what it leaves in other registers and below the stack pointer, how far the stack may grow, the
addresses that calls return to, and the address that the main procedure is to return to.
-/

namespace TreeCompiler

/-- A state of a machine: the code that comes next, the contents of the registers and of the words of
the memory, and what has been seen so far. -/
structure Machine where
  rest : Code
  registers : Register → Bits
  memory : Nat → Bits
  events : List Event
  status : Status

/-! ### Instructions -/

/-- The result of an arithmetic instruction; there is none for a division by zero. -/
def ArithOp.apply (op : ArithOp) (a b : Bits) : Option Bits :=
  match op with
  | .add => some (a + b)
  | .sub => some (a - b)
  | .mul => some (a * b)
  | .div => if b = 0 then none else some (a.sdiv b)
  | .and => some (a &&& b)
  | .or => some (a ||| b)

/-- Whether a branch is taken. -/
def BranchOp.holds (op : BranchOp) (a b : Bits) : Bool :=
  match op with
  | .eq => a == b
  | .ne => a != b
  | .lt => a.slt b
  | .le => a.sle b
  | .gt => b.slt a
  | .ge => b.sle a
  | .geUnsigned => b.ule a

/-- The memory with a word written. -/
def writeWord (memory : Nat → Bits) (a : Nat) (w : Bits) : Nat → Bits :=
  fun a' => if a' = a then w else memory a'

/-- The memory with several words written in order. -/
def writeWords (memory : Nat → Bits) (writes : List (Nat × Bits)) : Nat → Bits :=
  writes.foldl (fun memory x => writeWord memory x.1 x.2) memory

namespace Machine

/-- The word that a register reads. -/
def get (m : Machine) (r : Register) : Bits := if r = .zero then 0 else m.registers r

/-- The machine with a word in a register. -/
def set (m : Machine) (r : Register) (w : Bits) : Machine :=
  { m with registers := fun r' => if r' = r then w else m.registers r' }

/-- The value of an operand. -/
def operand (m : Machine) : Operand → Bits
  | .register r => m.get r
  | .integer i => BitVec.ofInt 32 i

/-- The machine at another place of the code. -/
def goTo (m : Machine) (rest : Code) : Machine := { m with rest }

/-- The machine at the end of a run. -/
def halt (m : Machine) (status : Status) : Machine := { m with status }

/-- The address of a word at an offset from a register, in words, if it is one. -/
def address? (m : Machine) (base : Register) (offset : Int) : Option Nat :=
  let a := (m.get base + BitVec.ofInt 32 offset).toNat
  if a % 4 = 0 then some (a / 4) else none

/-- The arguments of a procedure of the runtime library, from a word of the memory on: those that
are references are looked up. -/
def argumentsFrom (m : Machine) : Nat → List Bool → List Bits
  | _, [] => []
  | a, isReference :: references =>
    (if isReference then m.memory ((m.memory a).toNat / 4) else m.memory a) ::
      argumentsFrom m (a + 1) references

/-- The words that references among the arguments point to. -/
def targetsFrom (m : Machine) : Nat → List Bool → List Nat
  | _, [] => []
  | a, isReference :: references =>
    if isReference then (m.memory a).toNat / 4 :: targetsFrom m (a + 1) references
    else targetsFrom m (a + 1) references

end Machine

/-! ### Places in the code -/

/-- The code from a label on. -/
def findLabel (name : String) : Code → Option Code
  | [] => none
  | i :: rest => if i = .label name then some (i :: rest) else findLabel name rest

/-- A place that a call in the code returns to. -/
def IsReturnPoint (code rest : Code) : Prop := ∃ name, .call name :: rest <:+ code

/-- What surrounds a machine with some code. -/
structure Host (code : Code) where
  library : Library
  scratch : Machine → Machine
  stackLimit : Nat
  returnAddress : Code → Bits
  exit : Bits
  returnAddress_injective : ∀ r r', IsReturnPoint code r → IsReturnPoint code r' →
    returnAddress r = returnAddress r' → r = r'
  returnAddress_ne_exit : ∀ r, IsReturnPoint code r → returnAddress r ≠ exit

/-- The place that an address belongs to, among those that calls return to. -/
def findReturn (returnAddress : Code → Bits) (a : Bits) : Code → Option Code
  | [] => none
  | i :: rest =>
    match i with
    | .call _ => if returnAddress rest = a then some rest else findReturn returnAddress a rest
    | _ => findReturn returnAddress a rest

namespace Host

variable {code : Code} (host : Host code)

/-- Goes to a symbol.  Of the symbols that are not in the code only the index error is known. -/
def jump (_ : Host code) (m : Machine) (name : String) : Machine :=
  match findLabel name code with
  | some rest => m.goTo rest
  | none => m.halt (if name = indexErrorLabel then .indexError else .stuck)

/-- Calls a procedure of the runtime library, and goes on behind the call. -/
def invoke (m : Machine) (r : RuntimeProcedure) (rest : Code) : Machine :=
  let bottom := (m.get .sp).toNat / 4
  let events := m.events ++ [⟨r.name, m.argumentsFrom bottom r.references⟩]
  match host.library.reply events with
  | none => { m with events, status := .exited }
  | some words =>
    let scratch := host.scratch m
    let kept := fun a =>
      if bottom + r.references.length ≤ a then m.memory a else scratch.memory a
    { m with
      rest
      registers := fun x => if x = .sp ∨ x = .fp then m.registers x else scratch.registers x
      memory := writeWords kept ((m.targetsFrom bottom r.references).zip words)
      events }

/-- Calls a symbol, with the address behind the call in the return register. -/
def call (m : Machine) (name : String) (rest : Code) : Machine :=
  let m := m.set .ra (host.returnAddress rest)
  match findLabel name code with
  | some target => m.goTo target
  | none =>
    match runtimeProcedures.find? (·.name == name) with
    | some r => host.invoke m r rest
    | none => m.halt .stuck

/-- Goes to an address. -/
def goBack (m : Machine) (a : Bits) : Machine :=
  if a = host.exit then m.halt .returned
  else match findReturn host.returnAddress a code with
    | some rest => m.goTo rest
    | none => m.halt .stuck

/-- Computes a word into a register.  The stack pointer is not moved below the limit. -/
def compute (m : Machine) (op : ArithOp) (target left : Register) (right : Operand) (rest : Code) :
    Machine :=
  let a := m.get left
  let b := m.operand right
  if op = .sub ∧ target = .sp ∧ a.toNat < host.stackLimit + b.toNat then m.halt .outOfStack
  else match op.apply a b with
    | some w => (m.set target w).goTo rest
    | none => m.halt .divisionByZero

/-- The next state of a machine; one at the end of a run stays as it is. -/
def step (m : Machine) : Machine :=
  if m.status = .running then
    match m.rest with
    | [] => m.halt .stuck
    | i :: rest =>
      match i with
      | .imports _ | .exports _ | .code | .align _ | .label _ => m.goTo rest
      | .arith op target left right => host.compute m op target left right rest
      | .load target base offset =>
        match m.address? base offset with
        | some a => (m.set target (m.memory a)).goTo rest
        | none => m.halt .stuck
      | .store source base offset =>
        match m.address? base offset with
        | some a => { m with memory := writeWord m.memory a (m.get source) }.goTo rest
        | none => m.halt .stuck
      | .branch op left right target =>
        if op.holds (m.get left) (m.get right) then host.jump m target else m.goTo rest
      | .jump target => host.jump m target
      | .call target => host.call m target rest
      | .jumpRegister r => host.goBack m (m.get r)
  else m

/-- The state after so many steps. -/
def after (m : Machine) : Nat → Machine
  | 0 => m
  | n + 1 => host.step (after m n)

/-- A machine is about to execute the code from a label on: nothing has been seen yet, the return
register holds the address that is to be returned to, and the stack pointer is the address of a
word. -/
structure Starts (host : Host code) (m : Machine) (name : String) : Prop where
  rest : findLabel name code = some m.rest
  returnAddress : m.get .ra = host.exit
  aligned : (m.get .sp).toNat % 4 = 0
  events : m.events = []
  status : m.status = .running

end Host

end TreeCompiler
