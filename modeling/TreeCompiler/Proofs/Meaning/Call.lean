import TreeCompiler.Proofs.Meaning.Entry

/-!
# Calls side by side

When a program calls one of its procedures, the machine goes to its code and makes a frame for it,
and the blocks of its variables lie in that frame.  When a procedure of the runtime library is
called, it finds its arguments among the words for outgoing arguments.  When a procedure ends, the
machine goes on where its caller does.
-/

namespace TreeCompiler

/-! ### Code of procedures -/

/-- The code of a procedure behind its label, with what comes after it. -/
def Procedure.IsInside (p : Program) (q : Procedure) (inside : Code) : Prop :=
  ∃ l rest, inside = q.enteringCode p.typeNames p.signature ++
    (codeOf (q.places p.typeNames) p.signature q.body l ++
      (q.leavingCode p.typeNames p.signature ++ rest))

/-- The code of a procedure of the program is in the code of the program, behind its label. -/
lemma Program.label_suffix {p : Program} {q : Procedure} (hq : q ∈ p.procedures) :
    ∃ inside, q.IsInside p inside ∧ .label q.name :: inside <:+ p.code := by
  suffices hsub : ∀ (qs : List Procedure) (l₀ : Nat), q ∈ qs → ∃ l rest,
      q.code p.typeNames p.signature l ++ rest <:+ proceduresCode p.typeNames p.signature qs l₀ by
    obtain ⟨l, rest, hsuffix⟩ := hsub p.procedures 0 hq
    refine ⟨_, ⟨l, rest, rfl⟩, ?_⟩
    rw [Procedure.code_eq, List.cons_append, List.cons_append, List.append_assoc, List.append_assoc]
      at hsuffix
    exact (List.suffix_cons _ _).trans (hsuffix.trans (List.suffix_append _ _))
  intro qs l₀ hqs
  induction qs generalizing l₀ with
  | nil => cases hqs
  | cons q' qs ih =>
    rw [proceduresCode]
    rcases List.mem_cons.mp hqs with rfl | hqs
    · exact ⟨l₀, _, List.suffix_refl _⟩
    · obtain ⟨l, rest, hsuffix⟩ := ih _ hqs
      exact ⟨l, rest, hsuffix.trans (List.suffix_append _ _)⟩

/-- The statements of a body belong to its procedure. -/
lemma Program.Compilable.belongs {p : Program} (h : p.Compilable) {q : Procedure}
    (hq : q ∈ p.procedures) : ∀ st ∈ q.body, st.Belongs p q := by
  intro st hst
  have hneed : ∀ body : List Stmt, st ∈ body → st.need ≤ needOf body := by
    intro body hbody
    induction body with
    | nil => cases hbody
    | cons st' body ih =>
      rw [needOf]
      rcases List.mem_cons.mp hbody with rfl | hbody
      · exact Nat.le_max_left _ _
      · exact (ih hbody).trans (Nat.le_max_right _ _)
  have hall : needOf q.body ≤ p.need := le_foldr_max (f := fun q => needOf q.body) hq
  exact ⟨h.shaped q hq st hst, (hneed q.body hst).trans (hall.trans h.registers),
    fun c hc => mem_callsOf.mpr ⟨st, hst, hc⟩⟩

/-! ### Entering a procedure -/

section
variable {p : Program} {host : Host p.code} {m₀ m : Machine} {s : SourceState} {e : Invocation}
  {tasks : List Task}

/-- A procedure is about to be entered: the machine is at its label, with its arguments in memory,
and if there is room for its frame, it is the frame of a procedure that was called with what there
is to be done afterwards. -/
structure Enters (host : Host p.code) (m₀ : Machine) (e : Invocation) (tasks : List Task)
    (s : SourceState) (m : Machine) : Prop where
  member : e.procedure ∈ p.procedures
  code : ∃ inside, e.procedure.IsInside p inside ∧ m.rest = .label e.procedure.name :: inside
  suffix : m.rest <:+ p.code
  status : s.status = .running
  running : m.status = .running
  events : m.events = s.events
  blocks : s.blocks = e.blocks
  room : s.room = host.room e.fp
  below : e.fp ≤ m₀.top
  sp : m.get .sp = wordAt e.fp
  fp : m.get .fp = e.callerFp
  ra : m.get .ra = e.returnTo
  above : ∀ a, e.fp + e.procedure.parameters.length ≤ a → a < m₀.top →
    (e.roles a).Holds s.store (m.memory a)
  passed : ∀ k x, e.passed[k]? = some x → m.memory (e.fp + k) = x.bits e.origin
  sound : e.procedure.frameWords p.typeNames p.signature ≤ e.fp → e.Sound p m₀.top
  stacked : e.procedure.frameWords p.typeNames p.signature ≤ e.fp →
    Stacked host m₀ (e.newOrigin p) (e.blocks + e.procedure.decls.length) (e.frame p)
      (.leave s.environment s.room :: tasks)

/-- The machine tracks a procedure that is entered, for contents of its variables that are there. -/
lemma Enters.tracks (h : Enters host m₀ e tasks s m) (hcompilable : p.Compilable) {n : Nat} :
    ∃ contents, host.Tracks m₀ n m (s.enter p contents e.procedure e.passed tasks) := by
  have hfits : Word.size * e.fp < addresses :=
    Nat.lt_of_le_of_lt (Nat.mul_le_mul_left _ h.below) m₀.top_fits
  have hbytes : e.procedure.frameBytes p.typeNames p.signature =
      Word.size * e.procedure.frameWords p.typeNames p.signature := Procedure.frameBytes_eq
  obtain ⟨inside, ⟨l, rest, hinside⟩, hrest⟩ := h.code
  have hsuffix := h.suffix
  rw [hrest] at hsuffix
  have hlabel : host.step m = m.goTo inside := Host.step_label hrest h.running
  have hstart := Host.Advances.one hlabel h.running
  unfold SourceState.enter
  by_cases hroom : e.procedure.frameBytes p.typeNames p.signature ≤ s.room
  · rw [h.room, Host.room] at hroom
    have hpositive : 0 < e.procedure.frameBytes p.typeNames p.signature := by
      unfold Procedure.frameBytes
      dsimp only [Word.size]
      omega
    have hlimit : host.stackLimit + e.procedure.frameBytes p.typeNames p.signature ≤
        Word.size * e.fp := by omega
    obtain ⟨m₁, hadvances, hrest₁, hentered⟩ := Procedure.enteringCode_advances
      (m := m.goTo inside) h.running hinside hfits h.sp hlimit
    have hwords : e.procedure.frameWords p.typeNames p.signature ≤ e.fp := by
      rw [hbytes] at hroom
      dsimp only [Word.size] at hroom
      omega
    have hsound := h.sound hwords
    -- The contents of the new variables are those of the memory.
    have hall := hstart.trans rfl hadvances.reaches
    refine ⟨fun l => m₁.memory (l.word (e.newOrigin p)), m₁, hall.reaches,
      .inr ⟨⟨e.newOrigin p, e.frame p, .leave s.environment s.room :: tasks, ?_⟩, .inl hall⟩⟩
    rw [if_pos (by rw [h.room, Host.room]; exact hroom)]
    have hcode : Follows p e.procedure (.leave s.environment s.room :: tasks)
        (e.procedure.body.map .run ++ .leave s.environment s.room :: tasks) m₁.rest := by
      rw [hrest₁]
      exact .body (hcompilable.belongs h.member) .leave
    exact {
      status := h.status
      running := hentered.running
      events := hentered.events.trans h.events
      stacked := by
        rw [h.blocks]
        exact h.stacked hwords
      valid := by
        rw [h.blocks]
        exact hsound.valid hcompilable
      follows := hcode
      suffix := by
        rw [hrest₁]
        exact (List.suffix_append _ _).trans (hinside ▸ (List.suffix_cons _ _).trans hsuffix)
      environment := by
        rw [h.blocks]
        rfl
      room := by
        change s.room - _ = Host.room host (e.fp - _)
        rw [h.room, Host.room, Host.room, hbytes]
        dsimp only [Word.size]
        omega
      sp := hentered.sp
      fp := by
        rw [hsound.fp_eq]
        exact hentered.fp
      returnTo := fun _ => hentered.ra.trans h.ra
      holds := by
        rw [h.blocks]
        have hkept : ∀ a, e.fp ≤ a → m₁.memory a = m.memory a := hentered.memory
        refine hsound.holds (fun a ha htop => ?_) (fun k x hx => ?_)
          (hentered.callerFp.trans h.fp) (fun hcalls => (hentered.returnTo hcalls).trans h.ra)
          fun _ => rfl
        · rw [hkept a (by omega)]
          exact h.above a ha htop
        · rw [hkept _ (Nat.le_add_right _ _)]
          exact h.passed k x hx }
  · rw [h.room, Host.room] at hroom
    have hlimit : Word.size * e.fp <
        host.stackLimit + e.procedure.frameBytes p.typeNames p.signature := by omega
    have hstop := Procedure.enteringCode_outOfStack (m := m.goTo inside) h.running
      hinside hfits h.sp (hcompilable.frames _ h.member) hlimit
    refine ⟨s.store, .ends (hstart.reaches.trans rfl hstop) ?_ ?_⟩
    · rw [if_neg (by rw [h.room, Host.room]; exact hroom)]
      exact nofun
    · rw [if_neg (by rw [h.room, Host.room]; exact hroom)]
      exact ⟨h.events, rfl, nofun, nofun⟩

end

/-! ### Leaving a procedure -/

section
variable {p : Program} {host : Host p.code} {m₀ m : Machine} {s : SourceState}
  {origin : Nat → Nat} {blocks : Nat} {f : Frame} {q : Procedure} {stop tasks : List Task}
  {rest : Code}

/-- There is always a caller to go back to. -/
lemma Stacked.exists_leave (h : Stacked host m₀ origin blocks f stop) :
    ∃ caller room tasks, stop = .leave caller room :: tasks := by
  cases h <;> exact ⟨_, _, _, rfl⟩

/-- There is something left to be done in a procedure until it has ended. -/
lemma Follows.ne_nil (h : Follows p q stop tasks rest) (hstop : stop ≠ []) : tasks ≠ [] := by
  induction h with
  | leave => exact hstop
  | run _ _ _ => exact List.cons_ne_nil _ _
  | label _ ih => exact ih
  | jump _ _ ih => exact ih

/-- The memory agrees with the frame of the caller as with that of the procedure that it has
called: the words for the arguments, in which they differ, are free for the caller. -/
lemma Frame.Holds.caller {g : Frame} {top : Nat} {store : Store} {memory : Nat → Bits}
    (h : f.Holds top store memory) (hbottom : f.bottom ≤ g.bottom)
    (hg : g.Valid p origin blocks top)
    (harguments : g.bottom + f.procedure.parameters.length ≤ g.saves p)
    (hroles : ∀ a, g.bottom + f.procedure.parameters.length ≤ a → f.roles a = g.roles a) :
    g.Holds top store memory := by
  intro a hlow hhigh
  rcases Nat.lt_or_ge a (g.bottom + f.procedure.parameters.length) with hlt | hge
  · rw [hg.outgoing a hlow (by omega)]
    trivial
  · rw [← hroles a hge]
    exact h a (by omega) hhigh

/-- The machine tracks the end of a procedure. -/
lemma Matches.leave_tracks (hsp₀ : m₀.get .sp = wordAt m₀.top) (hra₀ : m₀.get .ra = host.exit)
    (h : Matches host m₀ origin f stop s m) {caller : Environment} {room : Nat}
    (hstop : stop = .leave caller room :: tasks)
    (hrest : m.rest = f.procedure.leavingCode p.typeNames p.signature ++ rest) {n : Nat} :
    host.Tracks m₀ n m (s.leave caller room tasks) := by
  have hfits : Word.size * f.fp p < addresses :=
    Nat.lt_of_le_of_lt (Nat.mul_le_mul_left _ h.valid.below) m₀.top_fits
  have hwords := (f.procedure.frame_words (p := p) f.bottom).2
  have hbelow := h.valid.below
  have hsaves : f.saves p + 1 < f.fp p := by
    unfold Frame.saves Frame.fp
    omega
  have hcallerFp := h.holds (f.saves p + 1) (by unfold Frame.saves; omega) (by omega)
  rw [h.valid.callerFp] at hcallerFp
  have hsaved : f.procedure.calls ≠ [] → m.memory (f.saves p) = f.returnTo := by
    intro hcalls
    have hword := h.holds (f.saves p) (Nat.le_add_right _ _) (by omega)
    rwa [h.valid.returnTo hcalls] at hword
  obtain ⟨m₁, hreaches, hrest₁, hrun₁, hevents₁, hmemory₁, hsp₁, hfp₁, hra₁⟩ :=
    Procedure.leavingCode_reaches h.running hrest hfits h.sp h.fp hcallerFp hsaved h.returnTo
  have hjump : host.step m₁ = host.goBack m₁ f.returnTo := by
    rw [Host.step_jumpRegister hrest₁ hrun₁, hra₁]
  unfold Host.goBack at hjump
  have hadvances := hreaches.advances hevents₁ (Host.Advances.one hjump hrun₁)
  cases h.stacked with
  | main hfp hcaller hreturn =>
    cases hstop
    rw [if_pos hreturn] at hadvances
    refine .ends hadvances.reaches nofun ⟨hevents₁.trans h.events, rfl, nofun, fun _ => ?_⟩
    refine ⟨?_, hfp₁.trans hcaller, hra₁.trans (hreturn.trans hra₀.symm)⟩
    rw [hsp₀, ← hfp]
    exact hsp₁
  | @called _ g stop' tasks' rest' hstacked hg hfollows hpoint hcalls hfp hcaller hreturn harguments
      hroles =>
    cases hstop
    obtain ⟨name, hname⟩ := hpoint
    rw [if_neg (by rw [hreturn]; exact host.returnAddress_ne_exit _ ⟨name, hname⟩), hreturn,
      Host.findReturn_eq host ⟨name, hname⟩] at hadvances
    have hsome : stop' ≠ [] := by
      obtain ⟨_, _, _, rfl⟩ := hstacked.exists_leave
      exact List.cons_ne_nil _ _
    have hnext : tasks.isEmpty = false := List.isEmpty_eq_false_iff.mpr (hfollows.ne_nil hsome)
    have hbottom : f.bottom ≤ g.bottom := by
      rw [← hfp]
      exact Nat.le_add_right _ _
    refine ⟨_, hadvances.reaches, .inr ⟨⟨origin, g, stop', ?_⟩, .inl hadvances⟩⟩
    exact {
      status := by
        unfold SourceState.leave
        rw [hnext]
        rfl
      running := hrun₁
      events := hevents₁.trans h.events
      stacked := hstacked
      valid := hg
      follows := hfollows
      suffix := (List.suffix_cons _ _).trans hname
      environment := rfl
      room := rfl
      sp := by
        rw [Machine.get_goTo, ← hfp]
        exact hsp₁
      fp := hfp₁.trans hcaller
      returnTo := fun hnone => absurd hnone hcalls
      holds := by
        have hholds := h.holds.caller hbottom hg harguments hroles
        rw [← hmemory₁] at hholds
        exact hholds }

end

/-! ### The runtime library -/

section
variable {p : Program} {host : Host p.code} {m₀ m m₁ : Machine} {s : SourceState}
  {origin : Nat → Nat} {blocks top : Nat} {f : Frame} {stop tasks : List Task} {store : Store}
  {passed : List Passed} {rest : Code}

/-- The runtime library sees the values that are passed, and writes where the references point to. -/
lemma runtimeArguments_eq (hfits : Word.size * top < addresses)
    (hholds : f.Holds top store m.memory) {references : List Bool}
    (hpassed : List.Forall₂ (Formal.Takes (Binding.Owned origin blocks f.roles f.bottom top))
      (references.map fun isReference => ⟨.int, isReference⟩) passed) {a : Nat}
    (hwords : ∀ i y, passed[i]? = some y → m.memory (a + i) = y.bits origin) :
    m.argumentsFrom a references = passed.map (Passed.seen store) ∧
      m.targetsFrom a references = (passed.filterMap Passed.location?).map (Location.word origin) := by
  induction references generalizing passed a with
  | nil =>
    cases hpassed
    exact ⟨rfl, rfl⟩
  | cons isReference references ih =>
    rw [List.map_cons, List.forall₂_cons_left_iff] at hpassed
    obtain ⟨y, passed, htakes, hpassed, rfl⟩ := hpassed
    have hword : m.memory a = y.bits origin := hwords 0 y rfl
    obtain ⟨harguments, htargets⟩ := ih hpassed (a := a + 1) fun i z hz => by
      rw [Nat.add_assoc, Nat.add_comm 1 i]
      exact hwords (i + 1) z hz
    unfold Machine.argumentsFrom Machine.targetsFrom
    rw [harguments, htargets]
    cases y with
    | word w =>
      obtain rfl : isReference = false := htakes
      rw [if_neg Bool.false_ne_true, if_neg Bool.false_ne_true, hword]
      exact ⟨rfl, rfl⟩
    | location l =>
      obtain ⟨href, howned⟩ := htakes
      obtain rfl : isReference = true := href
      have hstored := howned.stored hholds hfits
      have hplace : (m.memory a).toNat / 4 = l.word origin := by
        rw [hword, Passed.bits, toNat_wordAt (hstored.word_lt Nat.one_pos)]
        exact Nat.mul_div_cancel_left _ (by decide)
      rw [if_pos rfl, if_pos rfl, hplace]
      exact ⟨congrArg (· :: _) (hstored.cells 0 Nat.one_pos), rfl⟩

/-- A location that is passed to the runtime library is the cell of a value. -/
lemma role_of_mem_locations {roles : Nat → Role} {bottom : Nat} {references : List Bool}
    (hpassed : List.Forall₂ (Formal.Takes (Binding.Owned origin blocks roles bottom top))
      (references.map fun isReference => ⟨.int, isReference⟩) passed) {l : Location}
    (hl : l ∈ passed.filterMap Passed.location?) : roles (l.word origin) = .cell l := by
  rw [List.forall₂_map_left_iff] at hpassed
  obtain ⟨y, hy, hlocation⟩ := List.mem_filterMap.mp hl
  obtain ⟨k, hk⟩ := List.getElem?_of_mem hy
  obtain ⟨isReference, -, htakes⟩ := forall₂_getElem? hpassed.flip hk
  cases y with
  | word w => cases hlocation
  | location l' =>
    cases hlocation
    exact htakes.2.cells 0 Nat.one_pos

/-- The machine tracks a call of the runtime library. -/
lemma Matches.invoke_tracks (h : Matches host m₀ origin f stop s m)
    (hactive : f.Active p m₀.top s.store m₁) (hevents : m₁.events = m.events)
    {r : RuntimeProcedure} (hlinked : Linked p.code) (hr : r ∈ runtimeProcedures)
    (hfind : runtimeProcedures.find? (·.name == r.name) = some r)
    (hrest : m₁.rest = .call r.name :: rest) (hsuffix : m₁.rest <:+ p.code)
    (hcalls : f.procedure.calls ≠ []) (hroom : f.bottom + r.references.length ≤ f.saves p)
    (hpassed : List.Forall₂
      (Formal.Takes (Binding.Owned origin s.blocks f.roles f.bottom m₀.top)) r.formals passed)
    (hwords : ∀ i y, passed[i]? = some y → m₁.memory (f.bottom + i) = y.bits origin)
    (hnext : Follows p f.procedure stop tasks rest) {n : Nat} :
    host.Tracks m₀ n m₁ (s.invoke host.library r.name passed tasks) := by
  have hnone : findLabel r.name p.code = none :=
    hlinked.imports _ (List.mem_append_left _ (List.mem_map_of_mem hr))
  obtain ⟨m₂, hm₂⟩ : ∃ m₂, m₂ = m₁.set .ra (host.returnAddress rest) := ⟨_, rfl⟩
  have hmemory₂ : m₂.memory = m₁.memory := by rw [hm₂]; rfl
  have hsp₂ : m₂.get .sp = wordAt f.bottom := by
    rw [hm₂, Machine.get_set_of_ne (by decide), hactive.sp]
  have hfp₂ : m₂.get .fp = wordAt (f.fp p) := by
    rw [hm₂, Machine.get_set_of_ne (by decide), hactive.fp]
  have hevents₂ : m₂.events = s.events := by
    rw [hm₂, ← h.events, ← hevents]
    rfl
  have hstep : host.step m₁ = host.invoke m₂ r rest := by
    rw [Host.step_call hrest hactive.running, hm₂]
    unfold Host.call
    rw [hnone, hfind]
  have hadvances := Host.Advances.one hstep hactive.running
  have hbottom : (m₂.get .sp).toNat / 4 = f.bottom := by
    have hbelow := h.valid.below
    rw [hsp₂, toNat_wordAt (Nat.lt_of_le_of_lt (Nat.mul_le_mul_left _
      ((Nat.le_add_right _ _).trans hbelow)) m₀.top_fits)]
    exact Nat.mul_div_cancel_left _ (by decide)
  have hholds₂ : f.Holds m₀.top s.store m₂.memory := by
    rw [hmemory₂]
    exact hactive.holds
  rw [← hmemory₂] at hwords
  obtain ⟨harguments, htargets⟩ := runtimeArguments_eq m₀.top_fits hholds₂ hpassed hwords
  unfold Host.invoke at hadvances
  unfold SourceState.invoke
  dsimp only at hadvances ⊢
  rw [hbottom, harguments, htargets, hevents₂] at hadvances
  cases hreply : host.library.reply
      (s.events ++ [⟨r.name, passed.map (Passed.seen s.store)⟩]) with
  | none =>
    rw [hreply] at hadvances
    exact .ends hadvances.reaches nofun ⟨rfl, rfl, nofun, nofun⟩
  | some words =>
    rw [hreply] at hadvances
    dsimp only at hadvances ⊢
    refine ⟨_, hadvances.reaches, .inr ⟨⟨origin, f, stop, ?_⟩, .inl hadvances⟩⟩
    exact {
      status := h.status
      running := by rw [hm₂]; exact hactive.running
      events := rfl
      stacked := h.stacked
      valid := h.valid
      follows := hnext
      suffix := by
        rw [hrest] at hsuffix
        exact (List.suffix_cons _ _).trans hsuffix
      environment := h.environment
      room := h.room
      sp := hsp₂
      fp := hfp₂
      returnTo := fun hnone => absurd hnone hcalls
      holds := by
        have hkept : f.Holds m₀.top s.store fun a =>
            if f.bottom + r.references.length ≤ a then m₂.memory a
            else (host.scratch m₂).memory a := by
          intro a hlow hhigh
          dsimp only
          split
          · exact hholds₂ a hlow hhigh
          · rw [h.valid.outgoing a hlow (by omega)]
            trivial
        have hwrites : ∀ x ∈ (passed.filterMap Passed.location?).zip words,
            f.roles (x.1.word origin) = .cell x.1 := fun x hx =>
          role_of_mem_locations hpassed (List.of_mem_zip hx).1
        have hwritten := hkept.writeAll h.valid hwrites
        rw [List.zip_map_left]
        exact hwritten }

end

/-! ### Calls -/

section
variable {p : Program} {host : Host p.code} {m₀ m m₁ : Machine} {s : SourceState}
  {origin : Nat → Nat} {f : Frame} {stop tasks : List Task} {mark : Mark} {passed : List Passed}
  {l : Nat} {rest : Code}

/-- The parameters that take a value take a single one. -/
lemma Program.Compilable.scalar_of_signature (h : p.Compilable) {name : String}
    {formals : List Formal} (hsignature : p.signature name = some formals) :
    ∀ x ∈ formals, x.isReference = false → x.shape.isScalar = true := by
  unfold Program.signature at hsignature
  split at hsignature
  · rename_i q hq
    cases hsignature
    intro x hx hvalue
    obtain ⟨parameter, hparameter, rfl⟩ := List.mem_map.mp hx
    obtain ⟨shape, hshape, -⟩ := h.shapes q (List.mem_of_find?_eq_some hq) parameter.decl
      (List.mem_append_left _ (List.mem_map_of_mem hparameter))
    have hscalar := h.scalar q (List.mem_of_find?_eq_some hq) parameter hparameter hvalue
    have hshape' : parameter.type.shape? p.typeNames = some shape := hshape
    dsimp only
    rw [hshape', Option.getD_some]
    exact hscalar shape hshape'
  · obtain ⟨r, -, rfl⟩ := Option.map_eq_some_iff.mp hsignature
    intro x hx _
    obtain ⟨isReference, -, rfl⟩ := List.mem_map.mp hx
    rfl

/-- A call evaluates its arguments first. -/
lemma SourceState.run_call {library : Library} {contents : Store} {callee : String}
    {arguments : List Expr} {formals : List Formal} (h : p.signature callee = some formals) :
    s.run p library contents tasks (.call mark callee arguments) = s.attempt
      (passArguments s.environment s.store formals arguments >>= fun passed =>
        .ok (s.call p library contents callee passed tasks)) := by
  rw [run, h]
  rfl

/-- A procedure of the program is entered when it is called. -/
lemma Matches.enters (hlinked : Linked p.code)
    (h : Matches host m₀ origin f stop s m) (hactive : f.Active p m₀.top s.store m₁)
    (hevents : m₁.events = m.events) {q : Procedure} (hq : q ∈ p.procedures)
    (hrest : m₁.rest = .call q.name :: rest) (hsuffix : m₁.rest <:+ p.code)
    (hcalls : f.procedure.calls ≠ []) (hroom : f.bottom + q.parameters.length ≤ f.saves p)
    (hpassed : List.Forall₂ (Formal.Takes (Binding.Owned origin s.blocks f.roles f.bottom m₀.top))
      (q.formals p.typeNames) passed)
    (hwords : ∀ i y, passed[i]? = some y → m₁.memory (f.bottom + i) = y.bits origin)
    (hnext : Follows p f.procedure stop tasks rest) :
    ∃ m₂, host.step m₁ = m₂ ∧ m₂.events = m₁.events ∧
      Enters host m₀ ⟨q, passed, s.blocks, origin, f.roles, f.bottom, wordAt (f.fp p),
        host.returnAddress rest⟩ tasks s m₂ := by
  obtain ⟨inside, hinside, hlabel⟩ := p.label_suffix hq
  have hstep : host.step m₁ =
      (m₁.set .ra (host.returnAddress rest)).goTo (.label q.name :: inside) := by
    rw [Host.step_call hrest hactive.running]
    unfold Host.call
    rw [hlinked.label _ _ hlabel]
  refine ⟨_, hstep, rfl, ?_⟩
  have hbelow := h.valid.below
  have hsaves : f.saves p ≤ f.fp p := by
    unfold Frame.saves Frame.fp Procedure.frameWords
    omega
  have hsound : q.frameWords p.typeNames p.signature ≤ f.bottom →
      Invocation.Sound p m₀.top ⟨q, passed, s.blocks, origin, f.roles, f.bottom, wordAt (f.fp p),
        host.returnAddress rest⟩ := by
    intro hwords
    refine ⟨hq, hwords, ?_, fun a ha ha' => h.valid.outgoing a ha ?_, h.valid.cells, hpassed⟩
    · dsimp only
      omega
    · dsimp only at ha'
      omega
  exact {
    member := hq
    code := ⟨inside, hinside, rfl⟩
    suffix := hlabel
    status := h.status
    running := hactive.running
    events := hevents.trans h.events
    blocks := rfl
    room := h.room
    below := by
      dsimp only
      omega
    sp := by
      rw [Machine.get_goTo, Machine.get_set_of_ne (by decide)]
      exact hactive.sp
    fp := by
      rw [Machine.get_goTo, Machine.get_set_of_ne (by decide)]
      exact hactive.fp
    ra := by
      rw [Machine.get_goTo, Machine.get_set_self (by decide)]
    above := fun a ha htop => hactive.holds a (by dsimp only at ha; omega) htop
    passed := hwords
    sound := hsound
    stacked := fun hframe => by
      have hnew := hsound hframe
      have horigin : ∀ k < s.blocks, Invocation.newOrigin p ⟨q, passed, s.blocks, origin, f.roles,
          f.bottom, wordAt (f.fp p), host.returnAddress rest⟩ k = origin k :=
        fun _ hk => Invocation.newOrigin_of_lt hk
      rw [h.environment, h.room]
      exact .called (h.stacked.mono horigin (Nat.le_add_right _ _))
        (h.valid.mono horigin (Nat.le_add_right _ _)) hnext ⟨q.name, hrest ▸ hsuffix⟩ hcalls
        hnew.fp_eq rfl rfl hroom fun a ha => if_pos ha }

/-- The machine tracks a call, for contents of the new variables that are there. -/
lemma Faces.call_tracks (hlinked : Linked p.code) (hcompilable : p.Compilable) {callee : String}
    {arguments : List Expr}
    (h : Faces host m₀ origin f stop s m (.call mark callee arguments) l tasks rest) :
    ∃ contents, host.Tracks m₀ s.weight m
      (s.run p host.library contents tasks (.call mark callee arguments)) := by
  obtain ⟨hmatches, -, hrest, ⟨hshaped, hneed, hcalls⟩, hnext⟩ := h
  have hcall : (callee, arguments) ∈ f.procedure.calls := hcalls _ (List.mem_singleton_self _)
  cases hshaped with
  | @call _ _ _ formals hsignature haccepts =>
    rw [Stmt.need] at hneed
    rw [Stmt.code, hsignature, Option.getD_some, List.append_assoc] at hrest
    have hlength := Procedure.length_le_outgoingWords hcall hsignature
    have hroom : f.bottom + formals.length ≤ f.saves p := Nat.add_le_add_left hlength _
    have hcode := argumentsCode_evaluates host hlinked hmatches.valid m₀.top_fits haccepts
      (hcompilable.scalar_of_signature hsignature) hneed (k := 0) hroom hmatches.active
      (Int.mul_zero _).symm hrest hmatches.suffix
    rw [← hmatches.environment] at hcode
    rcases hcode with ⟨passed, m₁, hpassed, hreaches, hevents₁, hgood⟩ |
      ⟨fault, m₁, hfault, hsense, hreaches, hevents₁, hend⟩
    · obtain ⟨htakes, hactive, -, hwords, -, hrest₁⟩ := hgood
      have hsuffix₁ : m₁.rest <:+ p.code := hrest₁ ▸ suffix_of_append hmatches.suffix hrest
      have hsome : f.procedure.calls ≠ [] := List.ne_nil_of_mem hcall
      have hrun : ∀ contents,
          s.run p host.library contents tasks (.call mark callee arguments) =
            s.call p host.library contents callee passed tasks := by
        intro contents
        rw [SourceState.run_call hsignature, hpassed]
        rfl
      simp only [hrun]
      unfold SourceState.call
      cases hfind : p.procedures.find? (·.name == callee) with
      | some q =>
        have hq := List.mem_of_find?_eq_some hfind
        obtain rfl : q.name = callee := by simpa using List.find?_some hfind
        have hformals : formals = q.formals p.typeNames := by
          unfold Program.signature at hsignature
          rw [hfind] at hsignature
          exact (Option.some.inj hsignature).symm
        subst hformals
        have hparameters : (q.formals p.typeNames).length = q.parameters.length :=
          List.length_map _
        rw [hparameters] at hroom
        obtain ⟨m₂, hstep, hevents₂, henters⟩ := hmatches.enters hlinked hactive hevents₁ hq hrest₁
          hsuffix₁ hsome hroom htakes hwords hnext
        obtain ⟨contents, htracks⟩ := henters.tracks hcompilable (n := s.weight)
        exact ⟨contents, .of_reaches hreaches hevents₁
          (.of_reaches (Host.Advances.one hstep hactive.running).reaches hevents₂ htracks)⟩
      | none =>
        unfold Program.signature at hsignature
        rw [hfind] at hsignature
        obtain ⟨r, hr, rfl⟩ := Option.map_eq_some_iff.mp hsignature
        obtain rfl : r.name = callee := by simpa using List.find?_some hr
        have hreferences : r.formals.length = r.references.length := List.length_map _
        rw [hreferences] at hroom
        exact ⟨s.store, .of_reaches hreaches hevents₁ (hmatches.invoke_tracks hactive hevents₁
          hlinked (List.mem_of_find?_eq_some hr) hr hrest₁ hsuffix₁ hsome hroom htakes hwords hnext)⟩
    · refine ⟨s.store, ?_⟩
      rw [SourceState.run_call hsignature, hfault]
      exact .fault hreaches (hevents₁.trans hmatches.events) hsense hend

end

end TreeCompiler
