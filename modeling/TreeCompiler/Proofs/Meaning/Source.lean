import TreeCompiler.Proofs.Emission.Code

/-!
# What programs mean

A program is run on a store of blocks: every variable of a procedure gets a block of its own when
the procedure is entered, a parameter that is passed by value with the argument in it, a local
variable with contents that are not specified.  A parameter that is passed by reference gets the
location of its argument, so that both names stand for the same cells.  Integers are words of 32
bits that wrap around.

A state says what is left to be done (`SourceState.tasks`) and what has been seen of the run so far:
the calls of the runtime library, and how the run has ended.  `SourceState.step` is a function; the
contents of new variables, which the meaning of a program leaves open, are handed to every step.  So
that a run can come to an end because the stack is used up, a state also says how many bytes of it
there are left; every procedure that is entered takes those of its frame until it is left.
-/

namespace TreeCompiler

/-- The contents of a cell. -/
abbrev Bits : Type := BitVec 32

/-! ### What can be seen of a run -/

/-- A call of a procedure of the runtime library with the values of its arguments. -/
structure Event where
  name : String
  arguments : List Bits
deriving DecidableEq

/-- The runtime library answers a call, after all the calls up to it, with the values that it writes
to its references in order; some calls do not return. -/
structure Library where
  reply : List Event → Option (List Bits)

/-- How a run stands.  It ends when the main procedure returns, in a call of the runtime library
that does not return, at an index that is out of range, in a division by zero, or when there is no
room for another frame. -/
inductive Status where
  | running | returned | exited | indexError | divisionByZero | outOfStack | stuck
deriving DecidableEq

/-- Why an expression has no value. -/
inductive NoValue where
  | indexOutOfRange | divisionByZero | meaningless
deriving DecidableEq

/-- How a run ends in which an expression has no value. -/
def NoValue.status : NoValue → Status
  | indexOutOfRange => .indexError
  | divisionByZero => .divisionByZero
  | meaningless => .stuck

/-! ### Values and locations -/

/-- The word of a truth value. -/
def truth (b : Bool) : Bits := if b then 1 else 0

/-- Whether a comparison holds between two signed words. -/
def BinaryOp.holds (op : BinaryOp) (a b : Bits) : Bool :=
  match op with
  | .eq => a == b
  | .ne => a != b
  | .lt => a.slt b
  | .le => a.sle b
  | .gt => b.slt a
  | .ge => b.sle a
  | .add | .sub | .mul | .div => false

/-- The value of an operator. -/
def BinaryOp.apply (op : BinaryOp) (a b : Bits) : Except NoValue Bits :=
  match op with
  | .add => .ok (a + b)
  | .sub => .ok (a - b)
  | .mul => .ok (a * b)
  | .div => if b = 0 then .error .divisionByZero else .ok (a.sdiv b)
  | .eq | .ne | .lt | .le | .gt | .ge => .ok (truth (op.holds a b))

/-- Where a value lies: in a block of the store, from a cell on. -/
structure Location where
  block : Nat
  cell : Nat
deriving DecidableEq

/-- The location so many cells further on. -/
def Location.shift (l : Location) (n : Nat) : Location := ⟨l.block, l.cell + n⟩

/-- The contents of all cells. -/
abbrev Store : Type := Location → Bits

/-- The store with a cell written. -/
def Store.write (store : Store) (l : Location) (w : Bits) : Store :=
  fun l' => if l' = l then w else store l'

/-- The store with words written to locations in order. -/
def Store.writeAll (store : Store) (writes : List (Location × Bits)) : Store :=
  writes.foldl (fun store x => store.write x.1 x.2) store

/-- What a name stands for: a value of a shape at a location. -/
structure Binding where
  shape : ValueShape
  location : Location

/-- What an element of an array stands for.  The index is a signed word, and has to be in range. -/
def Binding.element (b : Binding) (i : Bits) : Except NoValue Binding :=
  match b.shape with
  | .array length element =>
    if 0 ≤ i.toInt ∧ i.toInt < length then
      .ok ⟨element, b.location.shift (i.toNat * element.cells)⟩
    else .error .indexOutOfRange
  | _ => .error .meaningless

/-- What names stand for. -/
abbrev Environment : Type := List (String × Binding)

/-! ### Expressions -/

section
variable (environment : Environment) (store : Store)

mutual

/-- What a variable stands for.  The array comes before the index. -/
def Variable.locate : Variable → Except NoValue Binding
  | .named _ name =>
    match environment.lookup name with
    | some b => .ok b
    | none => .error .meaningless
  | .element _ array index => do
    let a ← array.locate
    let i ← index.evaluate
    a.element i

/-- The value of an expression.  The left operand comes before the right one. -/
def Expr.evaluate : Expr → Except NoValue Bits
  | .int _ value => .ok value.toBitVec
  | .bool _ value => .ok (truth value)
  | .read _ source => do
    let b ← source.locate
    return store b.location
  | .negate _ operand => do
    let a ← operand.evaluate
    return -a
  | .binary _ op left right => do
    let a ← left.evaluate
    let b ← right.evaluate
    op.apply a b

end

/-- An argument as it is passed: a word, or the location that another name is given to. -/
inductive Passed where
  | word (w : Bits)
  | location (l : Location)

/-- The word that a procedure of the runtime library sees of an argument. -/
def Passed.seen (store : Store) : Passed → Bits
  | word w => w
  | location l => store l

/-- The location that an argument gives another name to. -/
def Passed.location? : Passed → Option Location
  | word _ => none
  | location l => some l

/-- Evaluates an argument for a parameter. -/
def Formal.pass (f : Formal) (argument : Expr) : Except NoValue Passed :=
  if f.isReference then
    match argument.variable? with
    | some v => do
      let b ← v.locate environment store
      return .location b.location
    | none => .error .meaningless
  else do
    let w ← argument.evaluate environment store
    return .word w

/-- Evaluates arguments for parameters, in order. -/
def passArguments : List Formal → List Expr → Except NoValue (List Passed)
  | f :: formals, argument :: arguments => do
    let x ← f.pass environment store argument
    let rest ← passArguments formals arguments
    return x :: rest
  | [], [] => .ok []
  | _, _ => .error .meaningless

end

/-! ### Procedures -/

/-- What declared variables stand for, with blocks of their own from one on; a reference stands for
the location that is passed. -/
def bindDecls (names : List (String × ValueShape)) (decls : List VariableDecl)
    (passed : List Passed) (block : Nat) : Environment :=
  decls.mapIdx fun k d => (d.name, ⟨(d.type.shape? names).getD .int,
    (passed[k]?.bind Passed.location?).getD ⟨block + k, 0⟩⟩)

/-- The store with new blocks from one on: a parameter that is passed by value has it in its block,
and the other contents are given. -/
def Store.extend (store : Store) (block : Nat) (passed : List Passed) (contents : Store) : Store :=
  fun l =>
    if l.block < block then store l
    else match passed[l.block - block]? with
      | some (.word w) => w
      | _ => contents l

/-! ### States -/

/-- What is left to be done: a statement, or going back to a caller, whose names stand for what they
did and who has so many bytes of the stack left. -/
inductive Task where
  | run (s : Stmt)
  | leave (caller : Environment) (room : Nat)

/-- A state of a run: what is left to be done, what names stand for, the contents of the store and
the number of blocks in it, the bytes of the stack that are left, and what has been seen so far. -/
structure SourceState where
  tasks : List Task
  environment : Environment
  store : Store
  blocks : Nat
  room : Nat
  events : List Event
  status : Status

namespace SourceState

/-- A run starts with a call of the main procedure, and so many bytes of the stack. -/
def start (room : Nat) : SourceState where
  tasks := [.run (.call default mainName [])]
  environment := []
  store := fun _ => 0
  blocks := 0
  room := room
  events := []
  status := .running

/-- The next state, or the end of the run if an expression has no value. -/
def attempt (s : SourceState) : Except NoValue SourceState → SourceState
  | .ok s' => s'
  | .error fault => { s with status := fault.status }

/-- Enters a procedure of the program, if there is room for its frame. -/
def enter (p : Program) (s : SourceState) (contents : Store) (q : Procedure)
    (passed : List Passed) (rest : List Task) : SourceState :=
  if q.frameBytes p.typeNames p.signature ≤ s.room then
    { s with
      tasks := q.body.map .run ++ .leave s.environment s.room :: rest
      environment := bindDecls p.typeNames q.decls passed s.blocks
      store := s.store.extend s.blocks passed contents
      blocks := s.blocks + q.decls.length
      room := s.room - q.frameBytes p.typeNames p.signature }
  else { s with status := .outOfStack }

/-- Calls a procedure of the runtime library. -/
def invoke (library : Library) (s : SourceState) (name : String) (passed : List Passed)
    (rest : List Task) : SourceState :=
  let events := s.events ++ [⟨name, passed.map (Passed.seen s.store)⟩]
  match library.reply events with
  | none => { s with events, status := .exited }
  | some words =>
    { s with
      tasks := rest
      store := s.store.writeAll ((passed.filterMap Passed.location?).zip words)
      events }

/-- Calls a procedure by its name. -/
def call (p : Program) (library : Library) (s : SourceState) (contents : Store) (name : String)
    (passed : List Passed) (rest : List Task) : SourceState :=
  match p.procedures.find? (·.name == name) with
  | some q => s.enter p contents q passed rest
  | none => s.invoke library name passed rest

/-- Does a statement, with the tasks that come after it. -/
def run (p : Program) (library : Library) (s : SourceState) (contents : Store) (rest : List Task) :
    Stmt → SourceState
  | .empty _ => { s with tasks := rest }
  | .block _ body => { s with tasks := body.map .run ++ rest }
  | .assign _ target value => s.attempt do
    let b ← target.locate s.environment s.store
    let w ← value.evaluate s.environment s.store
    return { s with tasks := rest, store := s.store.write b.location w }
  | .ifThen _ test thenPart => s.attempt do
    let w ← test.evaluate s.environment s.store
    return { s with tasks := if w = 0 then rest else .run thenPart :: rest }
  | .ifThenElse _ test thenPart elsePart => s.attempt do
    let w ← test.evaluate s.environment s.store
    return { s with tasks := .run (if w = 0 then elsePart else thenPart) :: rest }
  | .loop mark test body => s.attempt do
    let w ← test.evaluate s.environment s.store
    return { s with
      tasks := if w = 0 then rest else .run body :: .run (.loop mark test body) :: rest }
  | .call _ callee arguments => s.attempt do
    let formals ← match p.signature callee with
      | some formals => .ok formals
      | none => .error .meaningless
    let passed ← passArguments s.environment s.store formals arguments
    return s.call p library contents callee passed rest

/-- Goes back to a caller; when there is none, the run has ended. -/
def leave (s : SourceState) (caller : Environment) (room : Nat) (rest : List Task) : SourceState :=
  { s with
    tasks := rest
    environment := caller
    room := room
    status := if rest.isEmpty then .returned else .running }

/-- The next state of a run, in which new variables have the contents that are given; a run that has
ended stays as it is. -/
def step (p : Program) (library : Library) (contents : Store) (s : SourceState) : SourceState :=
  if s.status = .running then
    match s.tasks with
    | [] => s
    | .leave caller room :: rest => s.leave caller room rest
    | .run statement :: rest => s.run p library contents rest statement
  else s

/-- The state after so many steps of a run that starts with so many bytes of the stack, when the
contents of new variables are given. -/
def after (p : Program) (library : Library) (room : Nat) (contents : Nat → Store) :
    Nat → SourceState
  | 0 => start room
  | n + 1 => (after p library room contents n).step p library (contents n)

end SourceState

end TreeCompiler
