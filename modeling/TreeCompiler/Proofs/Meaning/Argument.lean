import TreeCompiler.Proofs.Meaning.Statement

/-!
# The code of arguments

The code of an argument leaves the word in which the argument is passed, and stores it among the
words for outgoing arguments.  Nothing depends on those words, so that the memory still agrees with
the frame when the next argument is evaluated.
-/

namespace TreeCompiler

/-! ### The frame that is active -/

/-- The registers and the memory of the machine are those of a frame. -/
structure Frame.Active (p : Program) (top : Nat) (store : Store) (f : Frame) (m : Machine) : Prop where
  running : m.status = .running
  sp : m.get .sp = wordAt f.bottom
  fp : m.get .fp = wordAt (f.fp p)
  holds : f.Holds top store m.memory

section
variable {p : Program} {host : Host p.code} {origin : Nat → Nat} {blocks top : Nat} {f : Frame}
  {store : Store} {m m' : Machine}

/-- The frame of the procedure that runs is active. -/
lemma Matches.active {m₀ : Machine} {stop : List Task} {s : SourceState}
    (h : Matches host m₀ origin f stop s m) : f.Active p m₀.top s.store m :=
  ⟨h.running, h.sp, h.fp, h.holds⟩

/-- A frame stays active when only registers of the bank change. -/
lemma Frame.Active.keeps (h : f.Active p top store m) {low high : Nat}
    (hkeeps : m.Keeps m' low high) (hhigh : high ≤ bankSize) : f.Active p top store m' := by
  refine ⟨hkeeps.status, (hkeeps.sp hhigh).trans h.sp, (hkeeps.fp hhigh).trans h.fp, ?_⟩
  rw [hkeeps.memory]
  exact h.holds

/-- A frame stays active when a word is written that nothing depends on. -/
lemma Frame.Active.write_free (h : f.Active p top store m) {a : Nat} {w : Bits} {rest : Code}
    (ha : f.roles a = .free) :
    f.Active p top store ({ m with memory := writeWord m.memory a w }.goTo rest) :=
  ⟨h.running, h.sp, h.fp, h.holds.write_free ha⟩

/-- The machine shows the variables of the procedure whose frame is active. -/
lemma Frame.Active.shows (h : f.Active p top store m) (hvalid : f.Valid p origin blocks top)
    (hfits : Word.size * top < addresses) : (f.view p origin store).Shows m :=
  ⟨h.fp, hvalid.showsMemory h.holds hfits⟩

/-! ### Evaluating arguments -/

section
variable (host) (hlinked : Linked p.code) (hvalid : f.Valid p origin blocks top)
  (hfits : Word.size * top < addresses)
include hlinked hvalid hfits

/-- The code of an argument leaves the word in which the argument is passed. -/
lemma Formal.argumentCode_evaluates {x : Formal} {argument : Expr}
    (haccepts : x.Accepts (f.procedure.places p.typeNames) argument)
    (hscalar : x.isReference = false → x.shape.isScalar = true)
    (hactive : f.Active p top store m) (hneed : argument.need ≤ bankSize) {l : Nat} {rest : Code}
    (hrest : m.rest = x.argumentCode (f.procedure.places p.typeNames) argument l ++ rest)
    (hsuffix : m.rest <:+ p.code) :
    host.Evaluates m (x.pass f.environment store argument) fun y m' =>
      x.Takes (Binding.Owned origin blocks f.roles f.bottom top) y ∧
        m'.get (bank 0) = y.bits origin ∧ m.Keeps m' 0 argument.need ∧ m'.rest = rest := by
  obtain ⟨hshape, hvariable⟩ := haccepts
  have hshows := hactive.shows hvalid hfits
  unfold Formal.pass
  unfold Formal.argumentCode at hrest
  cases hreference : x.isReference with
  | true =>
    obtain ⟨v, hv⟩ := Option.isSome_iff_exists.mp (hvariable hreference)
    obtain ⟨mark, rfl⟩ := Expr.variable?_eq_some.mp hv
    rw [if_pos hreference, hv] at hrest
    rw [if_pos rfl, hv]
    rw [Expr.shape?] at hshape
    rw [Expr.need] at hneed ⊢
    have hcode := (Variable.code_evaluates host hlinked hshape hshows hactive.running
      (by rwa [Nat.zero_add]) hrest hsuffix).mono fun b m' hb h' =>
        (⟨hvalid.locate_owned hshape hb, h'⟩ : _ ∧ _)
    refine hcode.bind fun b m' h' => .ok .refl rfl ?_
    obtain ⟨howned, hshape', -, haddress, hkeeps, hrest'⟩ := h'
    rw [Nat.zero_add] at hkeeps
    obtain ⟨s, location⟩ := b
    dsimp only at hshape'
    subst hshape'
    exact ⟨⟨hreference, howned⟩, haddress, hkeeps, hrest'⟩
  | false =>
    rw [if_neg (by rw [hreference]; exact Bool.false_ne_true)] at hrest
    rw [if_neg Bool.false_ne_true]
    have hcode := Expr.code_evaluates host hlinked hshape (hscalar hreference) hshows
      hactive.running (by rwa [Nat.zero_add]) hrest hsuffix
    refine hcode.bind fun w m' h' => .ok .refl rfl ?_
    obtain ⟨hvalue, hkeeps, hrest'⟩ := h'
    rw [Nat.zero_add] at hkeeps
    exact ⟨hreference, hvalue, hkeeps, hrest'⟩

/-- The code of arguments leaves them in the words for outgoing arguments, from one on. -/
lemma argumentsCode_evaluates {formals : List Formal} {arguments : List Expr}
    (haccepts : List.Forall₂ (Formal.Accepts (f.procedure.places p.typeNames)) formals arguments)
    (hscalar : ∀ x ∈ formals, x.isReference = false → x.shape.isScalar = true)
    (hneed : argumentsNeed arguments ≤ bankSize) {k : Nat}
    (hk : f.bottom + k + formals.length ≤ f.saves p) (hactive : f.Active p top store m) {l : Nat}
    {rest : Code} {offset : Int} (hoffset : offset = Word.size * k)
    (hrest : m.rest =
      argumentsCode (f.procedure.places p.typeNames) formals arguments offset l ++ rest)
    (hsuffix : m.rest <:+ p.code) :
    host.Evaluates m (passArguments f.environment store formals arguments) fun passed m' =>
      List.Forall₂ (Formal.Takes (Binding.Owned origin blocks f.roles f.bottom top)) formals passed ∧
        f.Active p top store m' ∧ m'.get .ra = m.get .ra ∧
        (∀ i y, passed[i]? = some y → m'.memory (f.bottom + k + i) = y.bits origin) ∧
        (∀ a < f.bottom + k, m'.memory a = m.memory a) ∧ m'.rest = rest := by
  induction haccepts generalizing k m l offset with
  | nil =>
    refine .ok .refl rfl ⟨.nil, hactive, rfl, fun i y hy => ?_, fun _ _ => rfl, hrest⟩
    rw [List.getElem?_nil] at hy
    cases hy
  | @cons x argument formals arguments haccept _ ih =>
    obtain ⟨hscalarFirst, hscalarRest⟩ := List.forall_mem_cons.mp hscalar
    have hneed' : max argument.need (argumentsNeed arguments) ≤ bankSize := hneed
    rw [argumentsCode, List.append_assoc, List.cons_append] at hrest
    rw [List.length_cons] at hk
    rw [passArguments]
    refine (Formal.argumentCode_evaluates host hlinked hvalid hfits haccept hscalarFirst hactive
      (by omega) hrest hsuffix).bind fun y m₁ h₁ => ?_
    obtain ⟨htakes, hbits, hkeeps₁, hrest₁⟩ := h₁
    have hactive₁ := hactive.keeps hkeeps₁ (by omega)
    have hsuffix₁ : m₁.rest <:+ p.code := hrest₁ ▸ suffix_of_append hsuffix hrest
    -- The word is one of those for outgoing arguments, which are free.
    have hfree : f.roles (f.bottom + k) = .free :=
      hvalid.outgoing _ (Nat.le_add_right _ _) (by omega)
    have hsaves : f.saves p ≤ f.fp p := by
      unfold Frame.saves Frame.fp Procedure.frameWords
      omega
    have hbelow := hvalid.below
    have hword : (Word.size * (f.bottom + k : Nat) : Int) = Word.size * f.bottom + offset := by
      rw [hoffset]
      push_cast
      ring
    have hplace : Word.size * (f.bottom + k) < addresses :=
      Nat.lt_of_le_of_lt (Nat.mul_le_mul_left _ (by omega)) hfits
    obtain ⟨m₂, hm₂⟩ : ∃ m₂ : Machine, Machine.goTo
        { m₁ with memory := writeWord m₁.memory (f.bottom + k) (y.bits origin) }
        (argumentsCode (f.procedure.places p.typeNames) formals arguments (offset + Word.size)
          (l + argument.labels) ++ rest) = m₂ := ⟨_, rfl⟩
    have hstore : host.step m₁ = m₂ := by
      rw [← hm₂, ← hbits]
      exact Host.step_store hrest₁ (Machine.address?_eq_some hactive₁.sp hword hplace)
        hkeeps₁.status
    have hactive₂ : f.Active p top store m₂ := hm₂ ▸ hactive₁.write_free hfree
    have hmemory₂ : m₂.memory = writeWord m.memory (f.bottom + k) (y.bits origin) := by
      rw [← hm₂, ← hkeeps₁.memory]
      rfl
    have hra₂ : m₂.get .ra = m.get .ra := by
      rw [← hkeeps₁.ra (by omega), ← hm₂]
      rfl
    have hrest₂ : m₂.rest = argumentsCode (f.procedure.places p.typeNames) formals arguments
        (offset + Word.size) (l + argument.labels) ++ rest := by
      rw [← hm₂]
      rfl
    have hsuffix₂ : m₂.rest <:+ p.code := by
      rw [hrest₁] at hsuffix₁
      rw [hrest₂]
      exact (List.suffix_cons _ _).trans hsuffix₁
    have hevents₂ : m₂.events = m₁.events := by
      rw [← hm₂]
      rfl
    have hnext : offset + Word.size = Word.size * (k + 1 : Nat) := by
      rw [hoffset]
      push_cast
      ring
    refine .step hkeeps₁.status hstore hevents₂ ?_
    refine (ih hscalarRest (by unfold argumentsNeed at *; omega) (by omega) hactive₂ hnext hrest₂
      hsuffix₂).bind fun passed m' h' => ?_
    obtain ⟨hpassed, hactive', hra', hwords, hlow, hrest'⟩ := h'
    refine .ok .refl rfl ⟨.cons htakes hpassed, hactive', hra'.trans hra₂, fun i z hz => ?_,
      fun a ha => ?_, hrest'⟩
    · cases i with
      | zero =>
        rw [List.getElem?_cons_zero, Option.some.injEq] at hz
        subst hz
        rw [Nat.add_zero, hlow _ (by omega), hmemory₂]
        exact if_pos rfl
      | succ i =>
        rw [List.getElem?_cons_succ] at hz
        rw [← hwords i z hz]
        congr 1
        omega
    · rw [hlow a (by omega), hmemory₂]
      exact if_neg (by omega)

end

end

end TreeCompiler
