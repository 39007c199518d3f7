import TreeCompiler.Proofs.Meaning.Invocation

/-!
# Runs side by side

When a state of a program matches a state of the machine.  The code that comes next in the machine
is that of the tasks of the procedure that runs (`Follows`); below it on the stack are the frames of
its callers, down to that of the main procedure (`Stacked`), and the memory agrees with its frame.
A step of the program is tracked by the machine (`Host.Tracks`): the machine gets to a state that
matches the next one, or to the same end of the run.  It does not need to move if there is less to
be done afterwards, as it is with an empty statement.
-/

namespace TreeCompiler

/-! ### The code of tasks -/

namespace Procedure

variable (names : List (String × ValueShape)) (signature : String → Option (List Formal))

/-- The code that makes the frame of a procedure. -/
def enteringCode (q : Procedure) : Code :=
  enterCode (q.frameBytes names signature) (q.outgoingBytes signature + Word.size)
    (-(q.localBytes names + 2 * Word.size)) (!q.calls.isEmpty)

/-- The code that goes back to the caller of a procedure. -/
def leavingCode (q : Procedure) : Code :=
  leaveCode (q.frameBytes names signature) (q.outgoingBytes signature + Word.size)
    (-(q.localBytes names + 2 * Word.size)) (!q.calls.isEmpty)

variable {names signature}

/-- The parts of the code of a procedure. -/
lemma code_eq {q : Procedure} {l : Nat} : q.code names signature l =
    .exports q.name :: .label q.name :: (q.enteringCode names signature ++
      (codeOf (q.places names) signature q.body l ++ q.leavingCode names signature)) := by
  unfold code enteringCode leavingCode
  rw [List.append_assoc, List.append_assoc]
  rfl

end Procedure

/-- A statement belongs to a procedure: it makes sense there, the registers suffice for it, and its
calls are among those of the procedure. -/
structure Stmt.Belongs (p : Program) (q : Procedure) (s : Stmt) : Prop where
  shaped : s.Shaped (q.places p.typeNames) p.signature
  need : s.need ≤ bankSize
  calls : ∀ c ∈ s.calls, c ∈ q.calls

/-- The code of the tasks of a procedure, up to the tasks that are left when it ends. -/
inductive Follows (p : Program) (q : Procedure) (stop : List Task) : List Task → Code → Prop
  | leave {rest : Code} :
      Follows p q stop stop (q.leavingCode p.typeNames p.signature ++ rest)
  | run {s : Stmt} {l : Nat} {tasks : List Task} {rest : Code} : s.Belongs p q →
      Follows p q stop tasks rest →
      Follows p q stop (.run s :: tasks) (s.code (q.places p.typeNames) p.signature l ++ rest)
  | label {name : String} {tasks : List Task} {rest : Code} : Follows p q stop tasks rest →
      Follows p q stop tasks (.label name :: rest)
  | jump {name : String} {tasks : List Task} {rest rest' : Code} :
      .label name :: rest <:+ p.code → Follows p q stop tasks (.label name :: rest) →
      Follows p q stop tasks (.jump name :: rest')

/-! ### The stack of callers -/

/-- The word that the stack pointer points to. -/
def Machine.top (m : Machine) : Nat := (m.get .sp).toNat / Word.size

/-- The bytes of the stack that are left below a word. -/
def Host.room {code : Code} (host : Host code) (a : Nat) : Nat := Word.size * a - host.stackLimit

section
variable {p : Program} (host : Host p.code) (m₀ : Machine)

/-- The callers of a procedure that runs, with what each of them goes on with: the frame of the
procedure ends at the bottom of that of its caller, and changes no roles but those of the words for
its arguments. -/
inductive Stacked (origin : Nat → Nat) (blocks : Nat) : Frame → List Task → Prop
  | main {f : Frame} : f.fp p = m₀.top → f.callerFp = m₀.get .fp → f.returnTo = host.exit →
      Stacked origin blocks f [.leave [] (host.room m₀.top)]
  | called {f g : Frame} {stop tasks : List Task} {rest : Code} : Stacked origin blocks g stop →
      g.Valid p origin blocks m₀.top → Follows p g.procedure stop tasks rest →
      IsReturnPoint p.code rest → g.procedure.calls ≠ [] → f.fp p = g.bottom →
      f.callerFp = wordAt (g.fp p) → f.returnTo = host.returnAddress rest →
      g.bottom + f.procedure.parameters.length ≤ g.saves p →
      (∀ a, g.bottom + f.procedure.parameters.length ≤ a → f.roles a = g.roles a) →
      Stacked origin blocks f (.leave g.environment (host.room g.bottom) :: tasks)

/-- A state of a program matches a state of the machine, with a frame for the procedure that
runs. -/
structure Matches (origin : Nat → Nat) (f : Frame) (stop : List Task) (s : SourceState)
    (m : Machine) : Prop where
  status : s.status = .running
  running : m.status = .running
  events : m.events = s.events
  stacked : Stacked host m₀ origin s.blocks f stop
  valid : f.Valid p origin s.blocks m₀.top
  follows : Follows p f.procedure stop s.tasks m.rest
  suffix : m.rest <:+ p.code
  environment : s.environment = f.environment
  room : s.room = host.room f.bottom
  sp : m.get .sp = wordAt f.bottom
  fp : m.get .fp = wordAt (f.fp p)
  returnTo : f.procedure.calls = [] → m.get .ra = f.returnTo
  holds : f.Holds m₀.top s.store m.memory

/-- A state of a program and a state of the machine look the same: the same calls of the runtime
library have been seen, and the run has ended in the same way or not at all.  When the main procedure
has returned, the stack pointer, the frame pointer and the return register are as they were. -/
structure Agrees (s : SourceState) (m : Machine) : Prop where
  events : m.events = s.events
  status : m.status = s.status
  sense : s.status ≠ .stuck
  returned : s.status = .returned → m.get .sp = m₀.get .sp ∧ m.get .fp = m₀.get .fp ∧
    m.get .ra = m₀.get .ra

/-- A state of a program matches a state of the machine. -/
def Matched (s : SourceState) (m : Machine) : Prop :=
  ∃ origin f stop, Matches host m₀ origin f stop s m

end

/-! ### Tracking a step -/

mutual

/-- How much there is to be done for a statement before the machine has to move. -/
def Stmt.weight : Stmt → Nat
  | .empty _ | .assign _ _ _ | .loop _ _ _ | .call _ _ _ => 1
  | .block _ body => 1 + weightOf body
  | .ifThen _ _ thenPart => 1 + thenPart.weight
  | .ifThenElse _ _ thenPart elsePart => 1 + thenPart.weight + elsePart.weight

/-- How much there is to be done for a list of statements. -/
def weightOf : List Stmt → Nat
  | [] => 0
  | s :: rest => s.weight + weightOf rest

end

/-- How much there is to be done for a task. -/
def Task.weight : Task → Nat
  | run s => s.weight
  | leave _ _ => 1

/-- How much there is to be done. -/
def SourceState.weight (s : SourceState) : Nat := (s.tasks.map Task.weight).sum

namespace Host

section
variable {p : Program} (host : Host p.code) (m₀ : Machine)

/-- The machine tracks a state of a program: it gets to the same end of the run, or to a state that
matches, and either moves or there is less to be done than so much. -/
def Tracks (n : Nat) (m : Machine) (s : SourceState) : Prop :=
  ∃ m', host.Reaches m m' ∧ (s.status ≠ .running ∧ Agrees m₀ s m' ∨
    Matched host m₀ s m' ∧ (host.Advances m m' ∨ s.weight < n))

end

end Host

/-! ### Matching states -/

section
variable {p : Program} {host : Host p.code} {m₀ m m' : Machine} {origin origin' : Nat → Nat}
  {blocks blocks' : Nat} {f : Frame} {q : Procedure} {stop tasks : List Task} {s : SourceState}
  {rest : Code}

/-- The stack of callers stays as it is when there are more blocks. -/
lemma Stacked.mono (h : Stacked host m₀ origin blocks f stop)
    (horigin : ∀ k < blocks, origin' k = origin k) (hblocks : blocks ≤ blocks') :
    Stacked host m₀ origin' blocks' f stop := by
  induction h with
  | main hfp hcallerFp hreturnTo => exact .main hfp hcallerFp hreturnTo
  | called _ hvalid hfollows hpoint hcalls hfp hcallerFp hreturnTo harguments hroles ih =>
    exact .called ih (hvalid.mono horigin hblocks) hfollows hpoint hcalls hfp hcallerFp hreturnTo
      harguments hroles

/-- The stack pointer is the address of a word that there is. -/
lemma Machine.top_fits (m : Machine) : Word.size * m.top < addresses :=
  Nat.lt_of_le_of_lt (Nat.mul_div_le _ _) (m.get .sp).isLt

/-- States that match look the same. -/
lemma Matches.agrees (h : Matches host m₀ origin f stop s m) : Agrees m₀ s m := by
  refine ⟨h.events, h.running.trans h.status.symm, ?_, fun hreturned => ?_⟩
  · rw [h.status]
    decide
  · cases h.status.symm.trans hreturned

/-- The machine shows the variables of the procedure that runs. -/
lemma Matches.shows (h : Matches host m₀ origin f stop s m) : (f.view p origin s.store).Shows m :=
  ⟨h.fp, h.valid.showsMemory h.holds m₀.top_fits⟩

/-- States still match when the machine goes on elsewhere with the code of the same tasks. -/
lemma Matches.goTo (h : Matches host m₀ origin f stop s m)
    (hfollows : Follows p f.procedure stop s.tasks rest) (hsuffix : rest <:+ p.code) :
    Matches host m₀ origin f stop s (m.goTo rest) :=
  { h with follows := hfollows, suffix := hsuffix }

/-- States match after the code of expressions, when the machine goes on with the code of the
tasks that are left. -/
lemma Matches.keeps (h : Matches host m₀ origin f stop s m) {high : Nat}
    (hkeeps : m.Keeps m' 0 high) (hhigh : high ≤ bankSize)
    (hfollows : Follows p f.procedure stop tasks m'.rest) (hsuffix : m'.rest <:+ p.code) :
    Matches host m₀ origin f stop { s with tasks } m' where
  status := h.status
  running := hkeeps.status
  events := hkeeps.events.trans h.events
  stacked := h.stacked
  valid := h.valid
  follows := hfollows
  suffix := hsuffix
  environment := h.environment
  room := h.room
  sp := (hkeeps.sp hhigh).trans h.sp
  fp := (hkeeps.fp hhigh).trans h.fp
  returnTo := fun hcalls => (hkeeps.ra hhigh).trans (h.returnTo hcalls)
  holds := by
    rw [hkeeps.memory]
    exact h.holds

/-! ### Following code -/

/-- The machine passes labels and jumps until it is at the code that leaves the procedure or at that
of the next statement. -/
lemma Follows.settles (hlinked : Linked p.code) (h : Follows p q stop tasks rest)
    (hrest : m.rest = rest) (hsuffix : m.rest <:+ p.code) (hrun : m.status = .running) :
    ∃ rest', host.Reaches m (m.goTo rest') ∧ rest' <:+ p.code ∧
      Follows p q stop tasks rest' ∧
      ((tasks = stop ∧ ∃ rest'', rest' = q.leavingCode p.typeNames p.signature ++ rest'') ∨
        ∃ st l tasks' rest'', tasks = .run st :: tasks' ∧ st.Belongs p q ∧
          rest' = st.code (q.places p.typeNames) p.signature l ++ rest'' ∧
          Follows p q stop tasks' rest'') := by
  induction h generalizing m with
  | @leave rest =>
    refine ⟨_, ?_, hrest ▸ hsuffix, .leave, .inl ⟨rfl, rest, rfl⟩⟩
    rw [← hrest]
    exact .refl
  | @run st l tasks rest hbelongs hnext _ =>
    refine ⟨_, ?_, hrest ▸ hsuffix, .run hbelongs hnext,
      .inr ⟨st, l, tasks, rest, rfl, hbelongs, rfl, hnext⟩⟩
    rw [← hrest]
    exact .refl
  | @label name tasks rest _ ih =>
    have hstep : host.step m = m.goTo rest := Host.step_label hrest hrun
    have hnext : rest <:+ p.code := (List.suffix_cons _ _).trans (hrest ▸ hsuffix)
    obtain ⟨rest', hreaches, hrest'⟩ := ih (m := m.goTo rest) rfl hnext hrun
    exact ⟨rest', (Host.Advances.one hstep hrun).reaches.trans rfl hreaches, hrest'⟩
  | @jump name tasks rest rest' hlabel _ ih =>
    have hstep : host.step m = m.goTo (.label name :: rest) := by
      rw [Host.step_jump hrest hrun, Host.jump_label hlinked hlabel]
    obtain ⟨rest'', hreaches, hrest''⟩ := ih (m := m.goTo (.label name :: rest)) rfl hlabel hrun
    exact ⟨rest'', (Host.Advances.one hstep hrun).reaches.trans rfl hreaches, hrest''⟩

/-- The code of statements one after the other. -/
lemma Follows.body {body : List Stmt} (hbody : ∀ st ∈ body, st.Belongs p q)
    (h : Follows p q stop tasks rest) {l : Nat} :
    Follows p q stop (body.map .run ++ tasks)
      (codeOf (q.places p.typeNames) p.signature body l ++ rest) := by
  induction body generalizing l with
  | nil => exact h
  | cons st body ih =>
    obtain ⟨hst, hbody⟩ := List.forall_mem_cons.mp hbody
    rw [codeOf, List.append_assoc]
    exact .run hst (ih hbody)

/-- What there is to be done for a list of statements. -/
lemma sum_weight_run {body : List Stmt} :
    ((body.map Task.run).map Task.weight).sum = weightOf body := by
  induction body with
  | nil => rfl
  | cons st body ih =>
    rw [List.map_cons, List.map_cons, List.sum_cons, ih]
    rfl

/-! ### Tracking -/

/-- A run in which an expression has no value has ended, and is stuck only if it makes no sense. -/
lemma NoValue.ends (fault : NoValue) : fault.status ≠ .running ∧ fault.status ≠ .returned ∧
    (fault ≠ .meaningless → fault.status ≠ .stuck) := by
  cases fault <;> decide

namespace Host

/-- The machine tracks a state from where it gets to. -/
lemma Tracks.of_reaches {m₁ : Machine} {n : Nat} (hreaches : host.Reaches m m₁)
    (hevents : m₁.events = m.events) (h : host.Tracks m₀ n m₁ s) : host.Tracks m₀ n m s := by
  obtain ⟨m', hreaches', h'⟩ := h
  refine ⟨m', hreaches.trans hevents hreaches', h'.imp_right ?_⟩
  rintro ⟨hmatched, hadvances | hweight⟩
  · exact ⟨hmatched, .inl (hreaches.advances hevents hadvances)⟩
  · exact ⟨hmatched, .inr hweight⟩

/-- The machine tracks a run to its end. -/
lemma Tracks.ends {n : Nat} (hreaches : host.Reaches m m') (hend : s.status ≠ .running)
    (hagrees : Agrees m₀ s m') : host.Tracks m₀ n m s :=
  ⟨m', hreaches, .inl ⟨hend, hagrees⟩⟩

/-- A run ends the same way in a program and in the machine if an expression has no value. -/
lemma Tracks.fault {n : Nat} {fault : NoValue} (hreaches : host.Reaches m m')
    (hevents : m'.events = s.events) (hfault : fault ≠ .meaningless)
    (hend : m'.status = fault.status) : host.Tracks m₀ n m { s with status := fault.status } := by
  obtain ⟨hrunning, hreturned, hstuck⟩ := fault.ends
  exact .ends hreaches hrunning ⟨hevents, hend, hstuck hfault, fun h => absurd h hreturned⟩

/-- The machine tracks a step in which it carries out an evaluation, if there is less to be done
afterwards. -/
lemma Evaluates.tracks {n : Nat} {value : Except NoValue SourceState}
    (hevents : m.events = s.events)
    (h : host.Evaluates m value fun s' m' => Matched host m₀ s' m' ∧ s'.weight < n) :
    host.Tracks m₀ n m (s.attempt value) := by
  rcases h with ⟨s', m', rfl, hreaches, -, hmatched, hweight⟩ |
    ⟨fault, m', rfl, hsense, hreaches, hevents', hend⟩
  · exact ⟨m', hreaches, .inr ⟨hmatched, .inr hweight⟩⟩
  · exact .fault hreaches (hevents'.trans hevents) hsense hend

/-- The machine tracks a step in which it carries out an evaluation after it has moved. -/
lemma Evaluates.tracks_of_advances {n : Nat} {m₁ : Machine} {value : Except NoValue SourceState}
    (hevents : m.events = s.events) (hadvances : host.Advances m m₁)
    (hevents₁ : m₁.events = m.events)
    (h : host.Evaluates m₁ value fun s' m' => Matched host m₀ s' m') :
    host.Tracks m₀ n m (s.attempt value) := by
  rcases h with ⟨s', m', rfl, hreaches, -, hmatched⟩ |
    ⟨fault, m', rfl, hsense, hreaches, hevents', hend⟩
  · have hall := hadvances.trans hevents₁ hreaches
    exact ⟨m', hall.reaches, .inr ⟨hmatched, .inl hall⟩⟩
  · exact .fault (hadvances.reaches.trans hevents₁ hreaches)
      (hevents'.trans (hevents₁.trans hevents)) hsense hend

end Host

end

end TreeCompiler
