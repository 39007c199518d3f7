import TreeCompiler.Proofs.Meaning.Running

/-!
# The code of statements

The machine tracks every statement but a call: the code of an assignment leaves the address and the
value and stores it, and that of a condition leads to the code of the part that is done next.
-/

namespace TreeCompiler

/-! ### Facing a statement -/

section
variable {p : Program} (host : Host p.code) (m₀ : Machine)

/-- Matching states in which a statement is next, and the machine is at its code. -/
structure Faces (origin : Nat → Nat) (f : Frame) (stop : List Task) (s : SourceState) (m : Machine)
    (st : Stmt) (l : Nat) (tasks : List Task) (rest : Code) : Prop where
  matching : Matches host m₀ origin f stop s m
  task : s.tasks = .run st :: tasks
  code : m.rest = st.code (f.procedure.places p.typeNames) p.signature l ++ rest
  belongs : st.Belongs p f.procedure
  next : Follows p f.procedure stop tasks rest

end

section
variable {p : Program} {q : Procedure} {mark : Mark} {test : Expr} {st st' : Stmt}

/-- The statements of a block belong to the procedure of the block. -/
lemma Stmt.Belongs.block {body : List Stmt} (h : (Stmt.block mark body).Belongs p q) :
    ∀ st ∈ body, st.Belongs p q := by
  obtain ⟨hshaped, hneed, hcalls⟩ := h
  cases hshaped with
  | block hbody =>
    rw [Stmt.need] at hneed
    rw [Stmt.calls] at hcalls
    induction body with
    | nil => exact fun st hst => absurd hst List.not_mem_nil
    | cons st body ih =>
      obtain ⟨hst, hbody⟩ := List.forall_mem_cons.mp hbody
      rw [needOf] at hneed
      rw [callsOf, List.forall_mem_append] at hcalls
      exact List.forall_mem_cons.mpr ⟨⟨hst, (Nat.le_max_left _ _).trans hneed, hcalls.1⟩,
        ih ((Nat.le_max_right _ _).trans hneed) hcalls.2 hbody⟩

/-- The part of a conditional statement belongs to its procedure, and the condition makes sense. -/
lemma Stmt.Belongs.ifThen (h : (Stmt.ifThen mark test st).Belongs p q) :
    test.shape? (q.places p.typeNames) = some .bool ∧ test.need ≤ bankSize ∧ st.Belongs p q := by
  obtain ⟨hshaped, hneed, hcalls⟩ := h
  cases hshaped with
  | ifThen htest hst =>
    rw [Stmt.need] at hneed
    exact ⟨htest, (Nat.le_max_left _ _).trans hneed, hst, (Nat.le_max_right _ _).trans hneed, hcalls⟩

/-- The parts of a conditional statement belong to its procedure, and the condition makes sense. -/
lemma Stmt.Belongs.ifThenElse (h : (Stmt.ifThenElse mark test st st').Belongs p q) :
    test.shape? (q.places p.typeNames) = some .bool ∧ test.need ≤ bankSize ∧ st.Belongs p q ∧
      st'.Belongs p q := by
  obtain ⟨hshaped, hneed, hcalls⟩ := h
  cases hshaped with
  | ifThenElse htest hst hst' =>
    rw [Stmt.need] at hneed
    rw [Stmt.calls, List.forall_mem_append] at hcalls
    exact ⟨htest, by omega, ⟨hst, by omega, hcalls.1⟩, hst', by omega, hcalls.2⟩

/-- The body of a loop belongs to its procedure, and the condition makes sense. -/
lemma Stmt.Belongs.loop (h : (Stmt.loop mark test st).Belongs p q) :
    test.shape? (q.places p.typeNames) = some .bool ∧ test.need ≤ bankSize ∧ st.Belongs p q := by
  obtain ⟨hshaped, hneed, hcalls⟩ := h
  cases hshaped with
  | loop htest hst =>
    rw [Stmt.need] at hneed
    exact ⟨htest, (Nat.le_max_left _ _).trans hneed, hst, (Nat.le_max_right _ _).trans hneed, hcalls⟩

end

/-! ### Statements that only lead on -/

section
variable {p : Program} {host : Host p.code} {m₀ m : Machine} {origin : Nat → Nat} {f : Frame}
  {stop tasks : List Task} {s : SourceState} {mark : Mark} {l : Nat} {rest : Code}
  {contents : Store}

/-- What there is to be done for a statement and the tasks after it. -/
lemma Faces.weight_eq {st : Stmt} (h : Faces host m₀ origin f stop s m st l tasks rest) :
    s.weight = st.weight + (tasks.map Task.weight).sum := by
  unfold SourceState.weight
  rw [h.task, List.map_cons, List.sum_cons]
  rfl

/-- The machine is ahead of an empty statement. -/
lemma Faces.empty_tracks (h : Faces host m₀ origin f stop s m (.empty mark) l tasks rest) :
    host.Tracks m₀ s.weight m (s.run p host.library contents tasks (.empty mark)) := by
  have hfollows : Follows p f.procedure stop tasks m.rest := by
    rw [h.code, Stmt.code]
    exact h.next
  refine ⟨m, .refl, .inr ⟨⟨origin, f, stop, { h.matching with follows := hfollows }⟩, .inr ?_⟩⟩
  rw [h.weight_eq, Stmt.weight]
  exact Nat.lt_add_of_pos_left Nat.one_pos

/-- The machine is at the code of the statements of a block. -/
lemma Faces.block_tracks {body : List Stmt}
    (h : Faces host m₀ origin f stop s m (.block mark body) l tasks rest) :
    host.Tracks m₀ s.weight m (s.run p host.library contents tasks (.block mark body)) := by
  have hfollows : Follows p f.procedure stop (body.map .run ++ tasks) m.rest := by
    rw [h.code, Stmt.code]
    exact .body h.belongs.block h.next
  refine ⟨m, .refl, .inr ⟨⟨origin, f, stop, { h.matching with follows := hfollows }⟩, .inr ?_⟩⟩
  have hweight : (SourceState.run p host.library s contents tasks (.block mark body)).weight =
      weightOf body + (tasks.map Task.weight).sum := by
    unfold SourceState.weight SourceState.run
    rw [List.map_append, List.sum_append, sum_weight_run]
  rw [h.weight_eq, hweight, Stmt.weight, Nat.add_assoc]
  exact Nat.lt_add_of_pos_left Nat.one_pos

/-! ### Assignments -/

/-- States match after a value of one cell is stored. -/
lemma Matches.write (h : Matches host m₀ origin f stop s m) {m' : Machine} {high : Nat}
    (hkeeps : m.Keeps m' 0 high) (hhigh : high ≤ bankSize)
    (hfollows : Follows p f.procedure stop tasks rest) (hsuffix : rest <:+ p.code) {b : Binding}
    (hb : b.Owned origin s.blocks f.roles f.bottom m₀.top) (hcells : b.shape.cells = 1) {w : Bits} :
    Matches host m₀ origin f stop { s with tasks, store := s.store.write b.location w }
      ({ m' with memory := writeWord m'.memory (b.location.word origin) w }.goTo rest) where
  status := h.status
  running := hkeeps.status
  events := hkeeps.events.trans h.events
  stacked := h.stacked
  valid := h.valid
  follows := hfollows
  suffix := hsuffix
  environment := h.environment
  room := h.room
  sp := (hkeeps.sp hhigh).trans h.sp
  fp := (hkeeps.fp hhigh).trans h.fp
  returnTo := fun hcalls => (hkeeps.ra hhigh).trans (h.returnTo hcalls)
  holds := by
    have hmemory : f.Holds m₀.top s.store m'.memory := by
      rw [hkeeps.memory]
      exact h.holds
    exact hmemory.write h.valid hb hcells

/-- The machine tracks an assignment. -/
lemma Faces.assign_tracks (hlinked : Linked p.code) {target : Variable} {value : Expr}
    (h : Faces host m₀ origin f stop s m (.assign mark target value) l tasks rest) :
    host.Tracks m₀ s.weight m
      (s.run p host.library contents tasks (.assign mark target value)) := by
  have hweight := h.weight_eq
  obtain ⟨hmatches, -, hrest, ⟨hshaped, hneed, -⟩, hnext⟩ := h
  cases hshaped with
  | assign htarget hvalue =>
    rw [Stmt.need] at hneed
    rw [Stmt.code, List.append_assoc, List.append_assoc] at hrest
    have hcodeTarget := (Variable.code_evaluates host hlinked htarget hmatches.shows
      hmatches.running (by omega) hrest hmatches.suffix).mono fun b m₁ hb h₁ =>
        (⟨hmatches.valid.locate_owned htarget hb, h₁⟩ : _ ∧ _)
    rw [SourceState.run, hmatches.environment]
    refine Host.Evaluates.tracks hmatches.events (hcodeTarget.bind fun b m₁ h₁ => ?_)
    obtain ⟨howned, hshape, -, haddress, hkeeps₁, hrest₁⟩ := h₁
    have hsuffix₁ : m₁.rest <:+ p.code := hrest₁ ▸ suffix_of_append hmatches.suffix hrest
    refine (Expr.code_evaluates host hlinked hvalue rfl (hmatches.shows.keeps hkeeps₁ (by omega))
      hkeeps₁.status (by omega) hrest₁ hsuffix₁).bind fun w m₂ h₂ => ?_
    obtain ⟨hvalue₂, hkeeps₂, hrest₂⟩ := h₂
    have hpos := target.need_pos
    have haddress₂ : m₂.get (bank 0) = wordAt (b.location.word origin) := by
      rw [hkeeps₂.bank (by omega) Nat.one_pos (by decide)]
      exact haddress
    have hkeeps : m.Keeps m₂ 0 bankSize :=
      hkeeps₁.trans hkeeps₂ (Nat.le_refl 0) (Nat.zero_le 1) (by omega) (by omega)
    have hcells : b.shape.cells = 1 := by
      rw [hshape]
      rfl
    have hfits : Word.size * b.location.word origin < addresses :=
      Nat.lt_of_le_of_lt (Nat.mul_le_mul_left _ ((Nat.le_add_right _ _).trans howned.below))
        m₀.top_fits
    have hsuffix₂ : m₂.rest <:+ p.code := hrest₂ ▸ suffix_of_append hsuffix₁ hrest₁
    have hsuffix : rest <:+ p.code := suffix_of_append hsuffix₂ hrest₂
    rw [List.singleton_append] at hrest₂
    have hstore : host.step m₂ =
        { m₂ with memory := writeWord m₂.memory (b.location.word origin) w }.goTo rest := by
      rw [Host.step_store hrest₂ (Machine.address?_zero haddress₂ hfits) hkeeps₂.status, hvalue₂]
    refine .ok (Host.Advances.one hstore hkeeps₂.status).reaches rfl ⟨⟨origin, f, stop, ?_⟩, ?_⟩
    · rw [← hmatches.environment]
      exact hmatches.write hkeeps (Nat.le_refl _) hnext hsuffix howned hcells
    · rw [hweight]
      exact Nat.lt_add_of_pos_left Nat.one_pos

/-! ### Conditions and loops -/

/-- The machine tracks a conditional statement. -/
lemma Faces.ifThen_tracks (hlinked : Linked p.code) {test : Expr} {st : Stmt}
    (h : Faces host m₀ origin f stop s m (.ifThen mark test st) l tasks rest) :
    host.Tracks m₀ s.weight m (s.run p host.library contents tasks (.ifThen mark test st)) := by
  have hweight := h.weight_eq
  obtain ⟨hmatches, -, hrest, hbelongs, hnext⟩ := h
  obtain ⟨htest, hneed, hst⟩ := hbelongs.ifThen
  rw [Stmt.code, List.append_assoc, List.append_assoc] at hrest
  have hcode := suffix_of_append hmatches.suffix hrest
  have hlabel : .label (labelName l) :: rest <:+ p.code := suffix_of_append hcode rfl
  have hcondition := Expr.conditionCode_evaluates host hlinked htest rfl hmatches.shows
    hmatches.running hneed hlabel hrest hmatches.suffix
  rw [SourceState.run, hmatches.environment]
  refine Host.Evaluates.tracks hmatches.events (hcondition.bind fun w m' h' => ?_)
  obtain ⟨hkeeps, hrest'⟩ := h'
  refine .ok .refl rfl ⟨⟨origin, f, stop, ?_⟩, ?_⟩
  · rw [← hmatches.environment]
    refine hmatches.keeps hkeeps hneed ?_ ?_
    · rw [hrest']
      split
      · exact hnext
      · exact .run hst (.label hnext)
    · rw [hrest']
      split
      · exact (List.suffix_cons _ _).trans hlabel
      · exact hcode
  · rw [hweight, Stmt.weight]
    unfold SourceState.weight
    dsimp only
    split
    · omega
    · rw [List.map_cons, List.sum_cons, Task.weight]
      omega

/-- The machine tracks a conditional statement with two parts. -/
lemma Faces.ifThenElse_tracks (hlinked : Linked p.code) {test : Expr} {st st' : Stmt}
    (h : Faces host m₀ origin f stop s m (.ifThenElse mark test st st') l tasks rest) :
    host.Tracks m₀ s.weight m
      (s.run p host.library contents tasks (.ifThenElse mark test st st')) := by
  have hweight := h.weight_eq
  obtain ⟨hmatches, -, hrest, hbelongs, hnext⟩ := h
  obtain ⟨htest, hneed, hst, hst'⟩ := hbelongs.ifThenElse
  rw [Stmt.code, List.append_assoc, List.append_assoc, List.append_assoc, List.append_assoc]
    at hrest
  have hcode := suffix_of_append hmatches.suffix hrest
  have hjump := suffix_of_append hcode rfl
  have hlabel := (List.suffix_cons _ _).trans hjump
  have helse := (List.suffix_cons _ _).trans hlabel
  have hend : .label (labelName (l + 1)) :: rest <:+ p.code := suffix_of_append helse rfl
  have hcondition := Expr.conditionCode_evaluates host hlinked htest rfl hmatches.shows
    hmatches.running hneed hlabel hrest hmatches.suffix
  rw [SourceState.run, hmatches.environment]
  refine Host.Evaluates.tracks hmatches.events (hcondition.bind fun w m' h' => ?_)
  obtain ⟨hkeeps, hrest'⟩ := h'
  refine .ok .refl rfl ⟨⟨origin, f, stop, ?_⟩, ?_⟩
  · rw [← hmatches.environment]
    refine hmatches.keeps hkeeps hneed ?_ ?_
    · rw [hrest']
      split
      · exact .run hst' (.label hnext)
      · exact .run hst (.jump hend (.label hnext))
    · rw [hrest']
      split
      · exact helse
      · exact hcode
  · rw [hweight, Stmt.weight]
    unfold SourceState.weight
    dsimp only
    rw [List.map_cons, List.sum_cons, Task.weight]
    split <;> omega

/-- The machine tracks a loop, which it enters through its label. -/
lemma Faces.loop_tracks (hlinked : Linked p.code) {test : Expr} {st : Stmt}
    (h : Faces host m₀ origin f stop s m (.loop mark test st) l tasks rest) :
    host.Tracks m₀ s.weight m (s.run p host.library contents tasks (.loop mark test st)) := by
  obtain ⟨hmatches, -, hrest, hbelongs, hnext⟩ := h
  have hagain : Follows p f.procedure stop (.run (.loop mark test st) :: tasks) m.rest := by
    rw [hrest]
    exact .run hbelongs hnext
  obtain ⟨htest, hneed, hst⟩ := hbelongs.loop
  rw [Stmt.code, List.append_assoc, List.append_assoc, List.cons_append] at hrest
  obtain ⟨inside, hlabel⟩ : ∃ inside, m.rest = .label (labelName l) :: inside := ⟨_, hrest⟩
  rw [hlabel] at hrest hagain
  have hloop : .label (labelName l) :: inside <:+ p.code := hlabel ▸ hmatches.suffix
  have hinside : inside <:+ p.code := (List.suffix_cons _ _).trans hloop
  have hcode := (List.cons.inj hrest).2
  have hbody := suffix_of_append hinside hcode
  have hjump := suffix_of_append hbody rfl
  have hend : .label (labelName (l + 1)) :: rest <:+ p.code := (List.suffix_cons _ _).trans hjump
  have hstep : host.step m = m.goTo inside := Host.step_label hlabel hmatches.running
  have hpassed : m.Keeps (m.goTo inside) 0 0 := .refl hmatches.running
  have hcondition := Expr.conditionCode_evaluates host hlinked htest rfl
    (hmatches.shows.keeps hpassed (Nat.zero_le _)) hpassed.status hneed hend hcode hinside
  rw [SourceState.run, hmatches.environment]
  refine Host.Evaluates.tracks_of_advances hmatches.events
    (Host.Advances.one hstep hmatches.running) rfl (hcondition.bind fun w m' h' => ?_)
  obtain ⟨hkeeps, hrest'⟩ := h'
  have hkeeps' : m.Keeps m' 0 test.need :=
    hpassed.trans hkeeps (Nat.le_refl _) (Nat.le_refl _) (Nat.zero_le _) (Nat.le_refl _)
  refine .ok .refl rfl ⟨origin, f, stop, ?_⟩
  rw [← hmatches.environment]
  refine hmatches.keeps hkeeps' hneed ?_ ?_
  · rw [hrest']
    split
    · exact hnext
    · exact .run hst (.jump hloop hagain)
  · rw [hrest']
    split
    · exact (List.suffix_cons _ _).trans hend
    · exact hbody

end

end TreeCompiler
