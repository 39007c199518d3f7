import TreeCompiler.Proofs.Meaning.Argument

/-!
# Entering and leaving procedures

The code that a procedure starts with moves the stack pointer down by its frame and saves what its
caller needs; the code that it ends with undoes this and goes back to where it was called.
-/

namespace TreeCompiler

/-! ### The stack pointer -/

namespace Host

section
variable {code : Code} {host : Host code} {m : Machine} {rest : Code} {i : Int}

/-- The stack pointer is moved up. -/
lemma step_raise (hrest : m.rest = .arith .add .sp .sp (.integer i) :: rest)
    (hrun : m.status = .running) :
    host.step m = (m.set .sp (m.get .sp + BitVec.ofInt 32 i)).goTo rest := by
  unfold step compute
  rw [if_pos hrun, hrest]
  dsimp only
  rw [if_neg (fun h => by cases h.1)]
  rfl

/-- The stack pointer is moved down, if there is room. -/
lemma step_lower (hrest : m.rest = .arith .sub .sp .sp (.integer i) :: rest)
    (hroom : host.stackLimit + (BitVec.ofInt 32 i).toNat ≤ (m.get .sp).toNat)
    (hrun : m.status = .running) :
    host.step m = (m.set .sp (m.get .sp - BitVec.ofInt 32 i)).goTo rest := by
  unfold step compute
  rw [if_pos hrun, hrest]
  dsimp only
  rw [if_neg (fun h => Nat.not_lt.mpr hroom h.2.2)]
  rfl

/-- The run ends where the stack pointer would be moved below the limit. -/
lemma step_lower_of_lt (hrest : m.rest = .arith .sub .sp .sp (.integer i) :: rest)
    (hroom : (m.get .sp).toNat < host.stackLimit + (BitVec.ofInt 32 i).toNat)
    (hrun : m.status = .running) : host.step m = m.halt .outOfStack := by
  unfold step compute
  rw [if_pos hrun, hrest]
  dsimp only
  exact if_pos ⟨rfl, rfl, hroom⟩

/-- The place that a return address belongs to. -/
lemma findReturn_eq (host : Host code) (h : IsReturnPoint code rest) :
    findReturn host.returnAddress (host.returnAddress rest) code = some rest := by
  suffices hsub : ∀ c : Code, c <:+ code → (∃ name, .call name :: rest <:+ c) →
      findReturn host.returnAddress (host.returnAddress rest) c = some rest from
    hsub code (List.suffix_refl _) h
  intro c hc hpoint
  induction c with
  | nil =>
    obtain ⟨name, hname⟩ := hpoint
    cases List.eq_nil_of_suffix_nil hname
  | cons i c ih =>
    have hnext : c <:+ code := (List.suffix_cons i c).trans hc
    obtain ⟨name, hname⟩ := hpoint
    rcases List.suffix_cons_iff.mp hname with heq | hsuffix
    · cases heq
      rw [findReturn]
      exact if_pos rfl
    · have hrest := ih hnext ⟨name, hsuffix⟩
      cases i with
      | call name' =>
        rw [findReturn]
        split
        · rename_i haddress
          rw [host.returnAddress_injective _ _ ⟨name', hc⟩ h haddress]
        · exact hrest
      | _ => exact hrest

end

end Host

/-! ### Entering -/

/-- The machine has entered a procedure whose frame pointer points to a word: its frame is made, and
what the caller needs is saved in it. -/
structure Entered (p : Program) (q : Procedure) (base : Nat) (m m' : Machine) : Prop where
  running : m'.status = .running
  events : m'.events = m.events
  sp : m'.get .sp = wordAt (base - q.frameWords p.typeNames p.signature)
  fp : m'.get .fp = wordAt base
  ra : m'.get .ra = m.get .ra
  callerFp : m'.memory (base - q.frameWords p.typeNames p.signature +
    q.outgoingWords p.signature + 1) = m.get .fp
  returnTo : q.calls ≠ [] → m'.memory (base - q.frameWords p.typeNames p.signature +
    q.outgoingWords p.signature) = m.get .ra
  memory : ∀ a, base ≤ a → m'.memory a = m.memory a

/-- An address that lies so many words below another. -/
lemma wordAt_sub_ofInt {a b : Nat} {i : Int} (h : (Word.size * a : Int) = Word.size * b + i) :
    wordAt a - BitVec.ofInt 32 i = wordAt b := by
  rw [← wordAt_add_ofInt h]
  exact BitVec.add_sub_cancel _ _

section
variable {p : Program} {host : Host p.code} {m : Machine} {q : Procedure} {fp : Nat} {rest : Code}

/-- The numbers of bytes in a frame, in words from its bottom. -/
lemma Procedure.frame_words (q : Procedure) (bottom : Nat) :
    ((q.frameBytes p.typeNames p.signature : Nat) : Int) =
        Word.size * q.frameWords p.typeNames p.signature ∧
      bottom + q.outgoingWords p.signature + 2 + q.localCells p.typeNames =
        bottom + q.frameWords p.typeNames p.signature := by
  constructor
  · rw [frameBytes_eq]
    exact Nat.cast_mul _ _
  · unfold frameWords
    omega

/-- The place where the caller's frame pointer is saved. -/
lemma Procedure.address?_callerFp {bottom : Nat} (hsp : m.get .sp = wordAt bottom)
    (hfits : Word.size * (bottom + q.frameWords p.typeNames p.signature) < addresses) :
    m.address? .sp (q.outgoingBytes p.signature + Word.size) =
      some (bottom + q.outgoingWords p.signature + 1) := by
  have hwords := (q.frame_words (p := p) bottom).2
  refine Machine.address?_eq_some hsp ?_ (Nat.lt_of_le_of_lt (Nat.mul_le_mul_left _ ?_) hfits)
  · rw [outgoingBytes_eq]
    push_cast
    ring
  · omega

/-- The place where the return address is saved. -/
lemma Procedure.address?_returnTo {bottom : Nat}
    (hfp : m.get .fp = wordAt (bottom + q.frameWords p.typeNames p.signature))
    (hfits : Word.size * (bottom + q.frameWords p.typeNames p.signature) < addresses) :
    m.address? .fp (-(q.localBytes p.typeNames + 2 * Word.size)) =
      some (bottom + q.outgoingWords p.signature) := by
  have hwords := (q.frame_words (p := p) bottom).2
  refine Machine.address?_eq_some hfp ?_ (Nat.lt_of_le_of_lt (Nat.mul_le_mul_left _ ?_) hfits)
  · rw [← hwords, localBytes_eq]
    push_cast
    ring
  · omega

/-- The first instructions of a procedure move the two pointers and save the caller's frame
pointer, if there is room. -/
lemma Procedure.pointerCode_advances {oldFramePointer : Int}
    (hold : oldFramePointer = q.outgoingBytes p.signature + Word.size) (hrun : m.status = .running)
    (hrest : m.rest =
      .arith .sub .sp .sp (.integer (q.frameBytes p.typeNames p.signature : Nat)) ::
        .store .fp .sp oldFramePointer ::
        .arith .add .fp .sp (.integer (q.frameBytes p.typeNames p.signature : Nat)) :: rest)
    (hfits : Word.size * fp < addresses) (hsp : m.get .sp = wordAt fp)
    (hroom : host.stackLimit + q.frameBytes p.typeNames p.signature ≤ Word.size * fp)
    {bottom : Nat} (hbottom : bottom + q.frameWords p.typeNames p.signature = fp) :
    ∃ m', host.Advances m m' ∧ m'.rest = rest ∧ m'.status = .running ∧ m'.events = m.events ∧
      m'.get .sp = wordAt bottom ∧ m'.get .fp = wordAt fp ∧ m'.get .ra = m.get .ra ∧
      m'.memory = writeWord m.memory (bottom + q.outgoingWords p.signature + 1) (m.get .fp) := by
  have hbytes := (q.frame_words (p := p) bottom).1
  subst hbottom
  -- The stack pointer is moved to the bottom of the frame.
  obtain ⟨m₁, hm₁⟩ : ∃ m₁, m₁ = host.step m := ⟨_, rfl⟩
  have hstep₁ := host.step_lower hrest (by
    rw [hsp, toNat_wordAt hfits, BitVec.ofInt_natCast, BitVec.toNat_ofNat]
    exact (Nat.add_le_add_left (Nat.mod_le _ _) _).trans hroom) hrun
  rw [hsp, wordAt_sub_ofInt (b := bottom) (by rw [hbytes]; push_cast; ring), ← hm₁] at hstep₁
  have hrun₁ : m₁.status = .running := by rw [hstep₁]; exact hrun
  have hsp₁ : m₁.get .sp = wordAt bottom := by
    rw [hstep₁, Machine.get_goTo, Machine.get_set_self (by decide)]
  -- The caller's frame pointer is saved.
  obtain ⟨m₂, hm₂⟩ : ∃ m₂, m₂ = host.step m₁ := ⟨_, rfl⟩
  have hstep₂ := host.step_store (by rw [hstep₁]; rfl)
    (hold ▸ Procedure.address?_callerFp hsp₁ hfits) hrun₁
  rw [← hm₂] at hstep₂
  have hrun₂ : m₂.status = .running := by rw [hstep₂]; exact hrun₁
  have hsp₂ : m₂.get .sp = wordAt bottom := by rw [hstep₂]; exact hsp₁
  have hmemory₂ : m₂.memory =
      writeWord m.memory (bottom + q.outgoingWords p.signature + 1) (m.get .fp) := by
    rw [hstep₂, hstep₁]
    rfl
  have hra₂ : m₂.get .ra = m.get .ra := by
    rw [hstep₂, hstep₁]
    rfl
  have hevents₂ : m₂.events = m.events := by
    rw [hstep₂, hstep₁]
    rfl
  -- The frame pointer is set to where the stack pointer was.
  obtain ⟨m₃, hm₃⟩ : ∃ m₃, m₃ = host.step m₂ := ⟨_, rfl⟩
  have hstep₃ := host.step_arith
    (w := wordAt (bottom + q.frameWords p.typeNames p.signature))
    (by rw [hstep₂]; rfl) (by decide) (by
      rw [hsp₂]
      refine congrArg some (wordAt_add_ofInt ?_)
      rw [hbytes]
      push_cast
      ring) hrun₂
  rw [← hm₃] at hstep₃
  refine ⟨m₃, ?_, by rw [hstep₃]; rfl, by rw [hstep₃]; exact hrun₂, by rw [hstep₃]; exact hevents₂,
    ?_, ?_, ?_, by rw [hstep₃]; exact hmemory₂⟩
  · refine (Host.Advances.one hm₁.symm hrun).trans (by rw [hstep₁]; rfl) ?_
    exact (Host.Advances.one hm₂.symm hrun₁).reaches.trans (by rw [hstep₂]; rfl)
      (Host.Advances.one hm₃.symm hrun₂).reaches
  · rw [hstep₃, Machine.get_goTo, Machine.get_set_of_ne (by decide)]
    exact hsp₂
  · rw [hstep₃, Machine.get_goTo, Machine.get_set_self (by decide)]
  · rw [hstep₃, Machine.get_goTo, Machine.get_set_of_ne (by decide)]
    exact hra₂

/-- The code that makes the frame of a procedure makes it, if there is room. -/
lemma Procedure.enteringCode_advances (hrun : m.status = .running)
    (hrest : m.rest = q.enteringCode p.typeNames p.signature ++ rest)
    (hfits : Word.size * fp < addresses) (hsp : m.get .sp = wordAt fp)
    (hroom : host.stackLimit + q.frameBytes p.typeNames p.signature ≤ Word.size * fp) :
    ∃ m', host.Advances m m' ∧ m'.rest = rest ∧ Entered p q fp m m' := by
  obtain ⟨bottom, hbottom⟩ : ∃ bottom, bottom = fp - q.frameWords p.typeNames p.signature :=
    ⟨_, rfl⟩
  have hframe : bottom + q.frameWords p.typeNames p.signature = fp := by
    rw [frameBytes_eq] at hroom
    dsimp only [Word.size] at hroom
    omega
  have hwords := (q.frame_words (p := p) bottom).2
  unfold enteringCode enterCode at hrest
  rw [List.append_assoc, List.cons_append, List.cons_append, List.cons_append, List.nil_append]
    at hrest
  obtain ⟨m₁, hadvances, hrest₁, hrun₁, hevents₁, hsp₁, hfp₁, hra₁, hmemory₁⟩ :=
    pointerCode_advances rfl hrun hrest hfits hsp hroom hframe
  have hpointer : m₁.memory (bottom + q.outgoingWords p.signature + 1) = m.get .fp := by
    rw [hmemory₁]
    exact if_pos rfl
  have habove : ∀ a, fp ≤ a → m₁.memory a = m.memory a := by
    intro a ha
    rw [hmemory₁]
    exact if_neg (by omega)
  by_cases hcalls : q.calls = []
  · rw [if_neg (by rw [hcalls]; decide), List.nil_append] at hrest₁
    exact ⟨m₁, hadvances, hrest₁, hrun₁, hevents₁, hbottom ▸ hsp₁, hfp₁, hra₁, hbottom ▸ hpointer,
      fun h => absurd hcalls h, habove⟩
  · -- The return address is saved as well.
    rw [if_pos (by rw [List.isEmpty_eq_false_iff.mpr hcalls]; rfl), List.singleton_append]
      at hrest₁
    obtain ⟨m₂, hm₂⟩ : ∃ m₂, m₂ = host.step m₁ := ⟨_, rfl⟩
    have hstep₂ := host.step_store hrest₁
      (Procedure.address?_returnTo (hframe ▸ hfp₁) (hframe ▸ hfits)) hrun₁
    rw [← hm₂] at hstep₂
    have hmemory₂ : m₂.memory =
        writeWord m₁.memory (bottom + q.outgoingWords p.signature) (m.get .ra) := by
      rw [hstep₂, ← hra₁]
      rfl
    refine ⟨m₂, hadvances.trans hevents₁ (Host.Advances.one hm₂.symm hrun₁).reaches,
      by rw [hstep₂]; rfl, by rw [hstep₂]; exact hrun₁, by rw [hstep₂]; exact hevents₁,
      by rw [hstep₂, ← hbottom]; exact hsp₁, by rw [hstep₂]; exact hfp₁, by rw [hstep₂]; exact hra₁,
      ?_, fun _ => ?_, fun a ha => ?_⟩
    · rw [← hbottom, hmemory₂, ← hpointer]
      exact if_neg (by omega)
    · rw [← hbottom, hmemory₂]
      exact if_pos rfl
    · rw [hmemory₂, ← habove a ha]
      exact if_neg (by omega)

/-- The run ends where there is no room for the frame of a procedure. -/
lemma Procedure.enteringCode_outOfStack (hrun : m.status = .running)
    (hrest : m.rest = q.enteringCode p.typeNames p.signature ++ rest)
    (hfits : Word.size * fp < addresses) (hsp : m.get .sp = wordAt fp)
    (hframe : (q.frameBytes p.typeNames p.signature : Int) ≤ Word.max)
    (hroom : Word.size * fp < host.stackLimit + q.frameBytes p.typeNames p.signature) :
    host.Reaches m (m.halt .outOfStack) := by
  unfold enteringCode enterCode at hrest
  rw [List.append_assoc, List.cons_append] at hrest
  refine (Host.Advances.one (Host.step_lower_of_lt hrest ?_ hrun) hrun).reaches
  rw [Word.max] at hframe
  rw [hsp, toNat_wordAt hfits, BitVec.ofInt_natCast, BitVec.toNat_ofNat, Nat.mod_eq_of_lt (by omega)]
  exact hroom

/-! ### Leaving -/

variable (host) in
/-- The return register holds the return address once it has been restored where it was saved. -/
lemma Procedure.returnCode_reaches (hrun : m.status = .running) {oldReturnAddress : Int}
    (hold : oldReturnAddress = -(q.localBytes p.typeNames + 2 * Word.size))
    (hrest : m.rest =
      (if (!q.calls.isEmpty) = true then [.load .ra .fp oldReturnAddress] else []) ++ rest)
    {bottom : Nat}
    (hfits : Word.size * (bottom + q.frameWords p.typeNames p.signature) < addresses)
    (hfp : m.get .fp = wordAt (bottom + q.frameWords p.typeNames p.signature)) {returnTo : Bits}
    (hsaved : q.calls ≠ [] → m.memory (bottom + q.outgoingWords p.signature) = returnTo)
    (hkept : q.calls = [] → m.get .ra = returnTo) :
    ∃ m', host.Reaches m m' ∧ m'.rest = rest ∧ m'.status = .running ∧ m'.events = m.events ∧
      m'.memory = m.memory ∧ m'.get .ra = returnTo ∧ m'.get .sp = m.get .sp := by
  by_cases hcalls : q.calls = []
  · rw [if_neg (by rw [hcalls]; decide), List.nil_append] at hrest
    exact ⟨m, .refl, hrest, hrun, rfl, rfl, hkept hcalls, rfl⟩
  · rw [if_pos (by rw [List.isEmpty_eq_false_iff.mpr hcalls]; rfl), List.singleton_append] at hrest
    have hstep := host.step_load hrest (hold ▸ Procedure.address?_returnTo hfp hfits) hrun
    refine ⟨_, (Host.Advances.one hstep hrun).reaches, rfl, hrun, rfl, rfl, ?_, ?_⟩
    · rw [Machine.get_goTo, Machine.get_set_self (by decide)]
      exact hsaved hcalls
    · rw [Machine.get_goTo, Machine.get_set_of_ne (by decide)]

/-- The code that leaves a procedure restores what has been saved, and is about to go back. -/
lemma Procedure.leavingCode_reaches (hrun : m.status = .running)
    (hrest : m.rest = q.leavingCode p.typeNames p.signature ++ rest) {bottom : Nat}
    (hfits : Word.size * (bottom + q.frameWords p.typeNames p.signature) < addresses)
    (hsp : m.get .sp = wordAt bottom)
    (hfp : m.get .fp = wordAt (bottom + q.frameWords p.typeNames p.signature))
    {callerFp returnTo : Bits}
    (hcallerFp : m.memory (bottom + q.outgoingWords p.signature + 1) = callerFp)
    (hsaved : q.calls ≠ [] → m.memory (bottom + q.outgoingWords p.signature) = returnTo)
    (hkept : q.calls = [] → m.get .ra = returnTo) :
    ∃ m', host.Reaches m m' ∧ m'.rest = .jumpRegister .ra :: rest ∧ m'.status = .running ∧
      m'.events = m.events ∧ m'.memory = m.memory ∧
      m'.get .sp = wordAt (bottom + q.frameWords p.typeNames p.signature) ∧
      m'.get .fp = callerFp ∧ m'.get .ra = returnTo := by
  have hbytes := (q.frame_words (p := p) bottom).1
  unfold leavingCode leaveCode at hrest
  rw [List.append_assoc] at hrest
  obtain ⟨m₁, hreaches₁, hrest₁, hrun₁, hevents₁, hmemory₁, hra₁, hsp₁⟩ :=
    returnCode_reaches host hrun rfl hrest hfits hfp hsaved hkept
  -- The caller's frame pointer is restored.
  obtain ⟨m₂, hm₂⟩ : ∃ m₂, m₂ = host.step m₁ := ⟨_, rfl⟩
  have hstep₂ := host.step_load hrest₁ (Procedure.address?_callerFp (hsp₁.trans hsp) hfits) hrun₁
  rw [hmemory₁, hcallerFp, ← hm₂] at hstep₂
  have hrun₂ : m₂.status = .running := by rw [hstep₂]; exact hrun₁
  have hsp₂ : m₂.get .sp = wordAt bottom := by
    rw [hstep₂, Machine.get_goTo, Machine.get_set_of_ne (by decide), hsp₁, hsp]
  -- The frame is dropped.
  obtain ⟨m₃, hm₃⟩ : ∃ m₃, m₃ = host.step m₂ := ⟨_, rfl⟩
  have hstep₃ := host.step_raise (by rw [hstep₂]; rfl) hrun₂
  rw [hsp₂, wordAt_add_ofInt (b := bottom + q.frameWords p.typeNames p.signature)
    (by rw [hbytes]; push_cast; ring), ← hm₃] at hstep₃
  refine ⟨m₃, ?_, by rw [hstep₃]; rfl, by rw [hstep₃]; exact hrun₂,
    by rw [hstep₃, hstep₂]; exact hevents₁, by rw [hstep₃, hstep₂]; exact hmemory₁, ?_, ?_, ?_⟩
  · refine hreaches₁.trans hevents₁ ((Host.Advances.one hm₂.symm hrun₁).reaches.trans ?_
      (Host.Advances.one hm₃.symm hrun₂).reaches)
    rw [hstep₂]
    rfl
  · rw [hstep₃, Machine.get_goTo, Machine.get_set_self (by decide)]
  · rw [hstep₃, Machine.get_goTo, Machine.get_set_of_ne (by decide), hstep₂, Machine.get_goTo,
      Machine.get_set_self (by decide)]
  · rw [hstep₃, Machine.get_goTo, Machine.get_set_of_ne (by decide), hstep₂, Machine.get_goTo,
      Machine.get_set_of_ne (by decide), hra₁]

end

end TreeCompiler
