import Mathlib.Data.Prod.Lex
import Mathlib.Order.WellFounded
import TreeCompiler.Proofs.Meaning.Call

/-!
# Compiled programs mean what their sources mean

The machine tracks every step of a program (`Matched.tracks`), and therefore its whole run: every
state of the run of the program looks like a state of the run of the machine, and the other way
round (`Host.Corresponds`).  So both show the same calls of the runtime library with the same
arguments, both go on forever or end in the same way, and when the main procedure returns, it does
so with the registers that it was entered with.
-/

namespace TreeCompiler

/-! ### A step -/

section
variable {p : Program} {host : Host p.code} {m₀ m : Machine} {s : SourceState}

/-- The first task is a statement. -/
lemma SourceState.step_run {library : Library} {contents : Store} {st : Stmt} {tasks : List Task}
    (hstatus : s.status = .running) (htasks : s.tasks = .run st :: tasks) :
    s.step p library contents = s.run p library contents tasks st := by
  unfold step
  rw [if_pos hstatus, htasks]

/-- The first task is going back to a caller. -/
lemma SourceState.step_leave {library : Library} {contents : Store} {caller : Environment}
    {room : Nat} {tasks : List Task} (hstatus : s.status = .running)
    (htasks : s.tasks = .leave caller room :: tasks) :
    s.step p library contents = s.leave caller room tasks := by
  unfold step
  rw [if_pos hstatus, htasks]

/-- A run that has ended stays as it is. -/
lemma SourceState.step_of_ended {library : Library} {contents : Store}
    (h : s.status ≠ .running) : s.step p library contents = s := if_neg h

/-- The machine tracks every statement, for contents of new variables that are there. -/
lemma Faces.tracks (hlinked : Linked p.code) (hcompilable : p.Compilable) {origin : Nat → Nat}
    {f : Frame} {stop tasks : List Task} {st : Stmt} {l : Nat} {rest : Code}
    (h : Faces host m₀ origin f stop s m st l tasks rest) :
    ∃ contents, host.Tracks m₀ s.weight m (s.run p host.library contents tasks st) := by
  cases st with
  | empty mark => exact ⟨s.store, h.empty_tracks⟩
  | block mark body => exact ⟨s.store, h.block_tracks⟩
  | assign mark target value => exact ⟨s.store, h.assign_tracks hlinked⟩
  | ifThen mark test thenPart => exact ⟨s.store, h.ifThen_tracks hlinked⟩
  | ifThenElse mark test thenPart elsePart => exact ⟨s.store, h.ifThenElse_tracks hlinked⟩
  | loop mark test body => exact ⟨s.store, h.loop_tracks hlinked⟩
  | call mark callee arguments => exact h.call_tracks hlinked hcompilable

/-- The machine tracks every step, for contents of new variables that are there. -/
lemma Matched.tracks (hlinked : Linked p.code) (hcompilable : p.Compilable)
    (hsp : m₀.get .sp = wordAt m₀.top) (hra : m₀.get .ra = host.exit)
    (h : Matched host m₀ s m) :
    ∃ contents, host.Tracks m₀ s.weight m (s.step p host.library contents) := by
  obtain ⟨origin, f, stop, hmatches⟩ := h
  obtain ⟨rest, hreaches, hsuffix, hfollows, hend | hnext⟩ :=
    hmatches.follows.settles hlinked rfl hmatches.suffix hmatches.running
  · obtain ⟨hstop, rest', hrest⟩ := hend
    have hthere := hmatches.goTo hfollows hsuffix
    refine ⟨s.store, .of_reaches hreaches rfl ?_⟩
    obtain ⟨caller, room, tasks, hstop'⟩ := hmatches.stacked.exists_leave
    rw [SourceState.step_leave hmatches.status (hstop.trans hstop')]
    exact hthere.leave_tracks hsp hra hstop' hrest
  · obtain ⟨st, l, tasks, rest', htasks, hbelongs, hrest, hnext⟩ := hnext
    have hfaces : Faces host m₀ origin f stop s (m.goTo rest) st l tasks rest' :=
      ⟨hmatches.goTo hfollows hsuffix, htasks, hrest, hbelongs, hnext⟩
    obtain ⟨contents, htracks⟩ := hfaces.tracks hlinked hcompilable
    refine ⟨contents, .of_reaches hreaches rfl ?_⟩
    rw [SourceState.step_run hmatches.status htasks]
    exact htracks

/-! ### The first step -/

/-- The stack pointer of a machine at the start is the address of a word. -/
lemma Host.Starts.sp (h : host.Starts m₀ mainName) : m₀.get .sp = wordAt m₀.top := by
  unfold wordAt Machine.top
  rw [Word.size, Nat.mul_div_cancel' (Nat.dvd_of_mod_eq_zero h.aligned), BitVec.ofNat_toNat,
    BitVec.setWidth_eq]

/-- The main procedure is entered at the start. -/
lemma Host.Starts.tracks (hlinked : Linked p.code) (hcompilable : p.Compilable)
    (h : host.Starts m₀ mainName) {n : Nat} :
    ∃ contents, host.Tracks m₀ n m₀
      ((SourceState.start (host.room m₀.top)).step p host.library contents) := by
  obtain ⟨q, hq, hname, hparameters⟩ := hcompilable.main
  have hfind : p.procedures.find? (·.name == mainName) = some q := by
    rw [← hname]
    exact find?_eq_some_of_nodup (List.nodup_append.mp hcompilable.names).2.1 hq
  have hformals : q.formals p.typeNames = [] := by
    unfold Procedure.formals
    rw [hparameters]
    rfl
  have hsignature : p.signature mainName = some [] := by
    unfold Program.signature
    rw [hfind, ← hformals]
  obtain ⟨inside, hinside, hlabel⟩ := p.label_suffix hq
  rw [hname] at hlabel
  have hrest : m₀.rest = .label mainName :: inside := by
    have hplace := h.rest
    rw [hlinked.label _ _ hlabel] at hplace
    exact (Option.some.inj hplace).symm
  have hnone : q.parameters.length = 0 := by
    rw [hparameters]
    rfl
  have hsound : q.frameWords p.typeNames p.signature ≤ m₀.top →
      Invocation.Sound p m₀.top
        ⟨q, [], 0, fun _ => 0, fun _ => .free, m₀.top, m₀.get .fp, host.exit⟩ := by
    intro hwords
    refine ⟨hq, hwords, ?_, fun _ _ _ => rfl, nofun, ?_⟩
    · dsimp only
      rw [hnone]
      exact Nat.le_refl _
    · dsimp only
      rw [hformals]
      exact .nil
  have henters : Enters host m₀
      ⟨q, [], 0, fun _ => 0, fun _ => .free, m₀.top, m₀.get .fp, host.exit⟩ []
      (SourceState.start (host.room m₀.top)) m₀ := {
    member := hq
    code := ⟨inside, hinside, hname ▸ hrest⟩
    suffix := hrest ▸ hlabel
    status := rfl
    running := h.status
    events := h.events
    blocks := rfl
    room := rfl
    below := Nat.le_refl _
    sp := h.sp
    fp := rfl
    ra := h.returnAddress
    above := fun _ _ _ => trivial
    passed := nofun
    sound := hsound
    stacked := fun hwords => .main (hsound hwords).fp_eq rfl rfl }
  obtain ⟨contents, htracks⟩ := henters.tracks hcompilable (n := n)
  refine ⟨contents, ?_⟩
  rw [SourceState.step_run rfl rfl, SourceState.run_call hsignature, passArguments]
  have hcall : (SourceState.start (host.room m₀.top)).call p host.library contents mainName [] [] =
      (SourceState.start (host.room m₀.top)).enter p contents q [] [] := by
    unfold SourceState.call
    rw [hfind]
  change host.Tracks m₀ n m₀ ((SourceState.start (host.room m₀.top)).call p host.library contents
    mainName [] [])
  rw [hcall]
  exact htracks

end

/-! ### Runs -/

namespace Host

section
variable {p : Program} (host : Host p.code) (m₀ : Machine)

/-- A state of a program and a number of steps of the machine that belong together: they match, or
the run has ended in both, or nothing has been done yet. -/
def Paired (x : SourceState × Nat) : Prop :=
  (x.1.status ≠ .running ∧ Agrees m₀ x.1 (host.after m₀ x.2)) ∨
    Matched host m₀ x.1 (host.after m₀ x.2) ∨ x = (.start (host.room m₀.top), 0)

/-- The program makes a step while the machine makes so many, in which nothing is seen; the program
does not go on forever while the machine stands still. -/
structure Moves (contents : Store) (x y : SourceState × Nat) : Prop where
  step : y.1 = x.1.step p host.library contents
  le : x.2 ≤ y.2
  quiet : ∀ k, x.2 ≤ k → k < y.2 → x.1.status = .running ∧
    (host.after m₀ k).status = .running ∧ (host.after m₀ k).events = x.1.events
  progress : y.1.status ≠ .running ∨ x.2 < y.2 ∨ y.1.weight < x.1.weight

variable {host m₀} {x : SourceState × Nat}

/-- States that belong together look the same. -/
lemma Paired.agrees (hstarts : host.Starts m₀ mainName) (h : host.Paired m₀ x) :
    Agrees m₀ x.1 (host.after m₀ x.2) := by
  rcases h with ⟨-, hagrees⟩ | ⟨origin, f, stop, hmatches⟩ | rfl
  · exact hagrees
  · exact hmatches.agrees
  · exact ⟨hstarts.events, hstarts.status, nofun, nofun⟩

/-- The machine makes the steps in which it tracks a step of the program. -/
lemma Tracks.moves {contents : Store} (hrun : x.1.status = .running)
    (hevents : (host.after m₀ x.2).events = x.1.events)
    (h : host.Tracks m₀ x.1.weight (host.after m₀ x.2) (x.1.step p host.library contents)) :
    ∃ y, host.Moves m₀ contents x y ∧ host.Paired m₀ y := by
  have hmoves : ∀ m' n, host.Leads (host.after m₀ x.2) n m' →
      host.after m₀ (x.2 + n) = m' ∧ ∀ k, x.2 ≤ k → k < x.2 + n → x.1.status = .running ∧
        (host.after m₀ k).status = .running ∧ (host.after m₀ k).events = x.1.events := by
    intro m' n hleads
    refine ⟨by rw [after_add]; exact hleads.after, fun k hk hk' => ?_⟩
    obtain ⟨j, rfl⟩ := Nat.exists_eq_add_of_le hk
    obtain ⟨hrunning, hsame⟩ := hleads.quiet j (by omega)
    rw [after_add]
    exact ⟨hrun, hrunning, hsame.trans hevents⟩
  obtain ⟨m', ⟨n, hleads⟩, ⟨hend, hagrees⟩ | ⟨hmatched, ⟨n', hadvances⟩ | hweight⟩⟩ := h
  · obtain ⟨hafter, hquiet⟩ := hmoves m' n hleads
    exact ⟨(_, x.2 + n), ⟨rfl, Nat.le_add_right _ _, hquiet, .inl hend⟩,
      .inl ⟨hend, by rw [hafter]; exact hagrees⟩⟩
  · obtain ⟨hafter, hquiet⟩ := hmoves m' (n' + 1) hadvances
    exact ⟨(_, x.2 + (n' + 1)), ⟨rfl, Nat.le_add_right _ _, hquiet,
      .inr (.inl (Nat.lt_add_of_pos_right (Nat.succ_pos _)))⟩,
      .inr (.inl (by rw [hafter]; exact hmatched))⟩
  · obtain ⟨hafter, hquiet⟩ := hmoves m' n hleads
    exact ⟨(_, x.2 + n), ⟨rfl, Nat.le_add_right _ _, hquiet, .inr (.inr hweight)⟩,
      .inr (.inl (by rw [hafter]; exact hmatched))⟩

/-- From states that belong together the program makes a step to states that do. -/
lemma Paired.moves (hlinked : Linked p.code) (hcompilable : p.Compilable)
    (hstarts : host.Starts m₀ mainName) (h : host.Paired m₀ x) :
    ∃ contents y, host.Moves m₀ contents x y ∧ host.Paired m₀ y := by
  have hagrees := h.agrees hstarts
  rcases h with ⟨hend, hagrees⟩ | hmatched | rfl
  · refine ⟨x.1.store, x, ⟨(SourceState.step_of_ended hend).symm, Nat.le_refl _, fun k hk hk' => ?_,
      .inl hend⟩, .inl ⟨hend, hagrees⟩⟩
    exact absurd hk' (Nat.not_lt.mpr hk)
  · obtain ⟨contents, htracks⟩ :=
      hmatched.tracks hlinked hcompilable hstarts.sp hstarts.returnAddress
    obtain ⟨origin, f, stop, hmatches⟩ := hmatched
    exact ⟨contents, htracks.moves hmatches.status hagrees.events⟩
  · obtain ⟨contents, htracks⟩ := hstarts.tracks hlinked hcompilable
    exact ⟨contents, Tracks.moves (x := (SourceState.start (host.room m₀.top), 0)) rfl hagrees.events
      htracks⟩

/-- Every state of the run of a program looks like a state of the run of a machine, and every state
of the run of the machine looks like a state of the run of the program. -/
structure Corresponds {code : Code} (host : Host code) (p : Program) (m : Machine)
    (contents : Nat → Store) : Prop where
  forth : ∀ n, ∃ k, Agrees m (.after p host.library (host.room m.top) contents n) (host.after m k)
  back : ∀ k, ∃ n, Agrees m (.after p host.library (host.room m.top) contents n) (host.after m k)

/-- A machine that has ended stays as it is. -/
lemma after_of_ended {code : Code} {host : Host code} {m : Machine} (h : m.status ≠ .running)
    {n : Nat} : host.after m n = m := by
  induction n with
  | zero => rfl
  | succ n ih => rw [after, ih, step_of_ended h]

section
variable {contents : Nat → Store} {xs : Nat → SourceState × Nat}

/-- A program does not go on forever while the machine stands still. -/
lemma exists_ended_or_lt (hmoves : ∀ n, host.Moves m₀ (contents n) (xs n) (xs (n + 1))) (k : Nat) :
    ∃ n, (xs n).1.status ≠ .running ∨ k < (xs n).2 := by
  by_contra hnever
  simp only [not_exists, not_or, not_not, Nat.not_lt] at hnever
  -- The machine comes closer to its last step, or there is less to be done.
  obtain ⟨n, hn⟩ := WellFounded.not_rel_apply_succ (r := (· < ·))
    fun n => toLex (k - (xs n).2, (xs n).1.weight)
  refine hn ?_
  have hle := (hmoves n).le
  have hbelow := (hnever (n + 1)).2
  rw [Prod.Lex.toLex_lt_toLex]
  dsimp only
  rcases (hmoves n).progress with hend | hlt | hweight
  · exact absurd (hnever (n + 1)).1 hend
  · omega
  · omega

variable (xs) in
/-- Runs that are made in moves correspond. -/
lemma corresponds_of_moves (hstarts : host.Starts m₀ mainName)
    (hzero : xs 0 = (.start (host.room m₀.top), 0)) (hpaired : ∀ n, host.Paired m₀ (xs n))
    (hmoves : ∀ n, host.Moves m₀ (contents n) (xs n) (xs (n + 1))) :
    host.Corresponds p m₀ contents := by
  have hafter : ∀ n, SourceState.after p host.library (host.room m₀.top) contents n = (xs n).1 := by
    intro n
    induction n with
    | zero => rw [hzero, SourceState.after]
    | succ n ih => rw [SourceState.after, ih, (hmoves n).step]
  have hagrees : ∀ n, Agrees m₀ (xs n).1 (host.after m₀ (xs n).2) := fun n =>
    (hpaired n).agrees hstarts
  refine ⟨fun n => ⟨(xs n).2, (hafter n).symm ▸ hagrees n⟩, fun k => ?_⟩
  -- The last state of the program before the machine has made so many steps.
  have hfirst := Nat.find_spec (exists_ended_or_lt hmoves k)
  have hbefore : ∀ j < Nat.find (exists_ended_or_lt hmoves k), _ := fun j =>
    Nat.find_min (exists_ended_or_lt hmoves k)
  generalize Nat.find (exists_ended_or_lt hmoves k) = n at hfirst hbefore
  by_cases hlt : k < (xs n).2
  · cases n with
    | zero =>
      rw [hzero] at hlt
      exact absurd hlt (Nat.not_lt_zero k)
    | succ j =>
      have hj := hbefore j (Nat.lt_succ_self j)
      rw [not_or, Nat.not_lt] at hj
      obtain ⟨hrun, hrunning, hevents⟩ := (hmoves j).quiet k hj.2 hlt
      refine ⟨j, ?_⟩
      rw [hafter]
      exact ⟨hevents, hrunning.trans hrun.symm, by rw [hrun]; exact nofun,
        fun h => by rw [hrun] at h; cases h⟩
  · have hended := hfirst.resolve_right hlt
    obtain ⟨i, rfl⟩ := Nat.exists_eq_add_of_le (Nat.not_lt.mp hlt)
    refine ⟨n, ?_⟩
    rw [hafter, after_add, after_of_ended (by rw [(hagrees n).status]; exact hended)]
    exact hagrees n

/-- A program and the machine that executes its code have runs that correspond. -/
lemma exists_corresponds (hlinked : Linked p.code) (hcompilable : p.Compilable)
    (hstarts : host.Starts m₀ mainName) : ∃ contents, host.Corresponds p m₀ contents := by
  choose contents next hmoves hpaired using fun x : { x // host.Paired m₀ x } =>
    x.2.moves hlinked hcompilable hstarts
  let xs : Nat → { x // host.Paired m₀ x } :=
    Nat.rec ⟨(.start (host.room m₀.top), 0), .inr (.inr rfl)⟩ fun _ x => ⟨next x, hpaired x⟩
  exact ⟨fun n => contents (xs n), corresponds_of_moves (fun n => (xs n).1) hstarts rfl
    (fun n => (xs n).2) fun n => hmoves (xs n)⟩

end

end

end Host

/-! ### Compiled programs -/

/-- The symbols of the code of a program resolve, if no procedure is called like a label. -/
lemma Program.Compilable.linked {p : Program} (h : p.Compilable)
    (hnames : ∀ q ∈ p.procedures, q.name ≠ indexErrorLabel ∧ ∀ l, q.name ≠ labelName l) :
    Linked p.code := by
  have hnodup : (TreeCompiler.symbols p.code).Nodup :=
    h.links_code.symbols.nodup_iff.mpr (h.nodup_symbols.mpr fun q hq =>
      ⟨(hnames q hq).1, fun l _ => (hnames q hq).2 l⟩)
  refine ⟨fun name rest hsuffix => findLabel_eq_some hnodup hsuffix, fun name hname => ?_⟩
  -- The head of the code introduces the name, so that the rest of it does not.
  unfold Program.code at hnodup ⊢
  rw [TreeCompiler.symbols, List.filterMap_append] at hnodup
  refine findLabel_eq_none fun hlabel => ?_
  have hhead : name ∈ headCode.filterMap Instruction.symbol? := hname
  rcases List.mem_append.mp hlabel with hlabel | hlabel
  · simp [headCode] at hlabel
  · exact (List.nodup_append.mp hnodup).2.2 name hhead name
      (List.mem_filterMap.mpr ⟨_, hlabel, rfl⟩) rfl

/-- What a program does when it is compiled and executed is what it means.  Its procedures must not be
called like labels that are made up or like that of the index error. -/
theorem compile_correct (definitions : List Definition) (c : Compilation) (a : Assembly)
    (h : compile (Program.ofDefinitions definitions) .codegen = .ok c) (ha : c.assembly = some a)
    (hnames : ∀ q ∈ (Program.ofDefinitions definitions).procedures,
      q.name ≠ indexErrorLabel ∧ ∀ l, q.name ≠ labelName l)
    (host : Host a.code) (m : Machine) (hstarts : host.Starts m mainName) :
    ∃ contents, host.Corresponds (Program.ofDefinitions definitions) m contents := by
  obtain ⟨hcompilable, hcode⟩ := compile_compilable h
  rw [ha] at hcode
  cases hcode
  exact Host.exists_corresponds (hcompilable.linked hnames) hcompilable hstarts

/-- A machine that is about to execute the main procedure in a memory of zeros, with so many words
below its stack pointer. -/
def Machine.fresh (code : Code) (words : Nat) : Machine where
  rest := (findLabel mainName code).getD []
  registers r := if r = .sp then wordAt words else 0
  memory _ := 0
  events := []
  status := .running

/-- The counting program does the same on a machine as it means; the machine prints a zero and
returns. -/
theorem compile_correct_countdown : ∃ c, ∃ host : Host (Program.ofDefinitions countdown).code, ∃ m,
    compile (Program.ofDefinitions countdown) .codegen = .ok c ∧ host.Starts m mainName ∧
      (∃ contents, host.Corresponds (Program.ofDefinitions countdown) m contents) ∧
      (host.after m 100).events = [⟨"printi", [0]⟩] ∧ (host.after m 100).status = .returned := by
  have hlength : (Program.ofDefinitions countdown).code.length < addresses := by decide +kernel
  have hmain : findLabel mainName (Program.ofDefinitions countdown).code =
      some (Machine.fresh (Program.ofDefinitions countdown).code 1000).rest := by decide +kernel
  have hrun : ((Host.plain _ hlength).after
        (.fresh (Program.ofDefinitions countdown).code 1000) 100).events = [⟨"printi", [0]⟩] ∧
      ((Host.plain _ hlength).after
        (.fresh (Program.ofDefinitions countdown).code 1000) 100).status = .returned := by
    decide +kernel +revert
  obtain ⟨c, hc⟩ := exists_countdown_compiled
  obtain ⟨-, hcode⟩ := compile_compilable hc
  have hnames : ∀ q ∈ (Program.ofDefinitions countdown).procedures,
      q.name ≠ indexErrorLabel ∧ ∀ l, q.name ≠ labelName l := by
    have hlower : ∀ q ∈ (Program.ofDefinitions countdown).procedures,
        q.name ≠ indexErrorLabel ∧ q.name.toList.head? ≠ some 'L' := by
      decide +kernel
    exact fun q hq => ⟨(hlower q hq).1, Program.ne_labelName (hlower q hq).2⟩
  have hstarts : (Host.plain _ hlength).Starts
      (.fresh (Program.ofDefinitions countdown).code 1000) mainName :=
    ⟨hmain, rfl, by decide +kernel, rfl, rfl⟩
  exact ⟨c, .plain _ hlength, _, hc, hstarts,
    compile_correct countdown c _ hc hcode hnames (.plain _ hlength) _ hstarts, hrun⟩

end TreeCompiler
