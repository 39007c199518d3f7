import Mathlib.Data.List.Forall2
import Mathlib.Tactic.Lemma

/-!
# Computations that thread a state and may fail

Checking and emitting both thread a state through a computation that stops at the first failure.
Such a computation succeeds exactly if all of its parts do, each on the state that the part before
leaves; `run_bind_eq_ok` and its relatives take a success apart in this way.  `Runs x s ok bad`
says how the run of `x` on `s` ends, well or badly, and is computed along the structure of `x`.

A walk over a list takes the same step for each element, and stops at the first step that fails.
-/

namespace TreeCompiler

section
variable {σ ε α β : Type}

/-! ### Successes -/

/-- What ends with a result has one. -/
lemma exists_ok_of_isOk {r : Except ε α} (h : r.isOk = true) : ∃ a, r = .ok a := by
  cases r with
  | ok a => exact ⟨a, rfl⟩
  | error e => cases h

/-- What ends with a result is its result, whatever a failure would be read as. -/
lemma eq_ok_of_isOk {r : Except ε α} (h : r.isOk = true) (a : α) : r = .ok (r.toOption.getD a) := by
  obtain ⟨b, rfl⟩ := exists_ok_of_isOk h
  rfl

/-- A sequence without a state succeeds if both of its parts do. -/
lemma bind_eq_ok {x : Except ε α} {f : α → Except ε β} {b : β} :
    (x >>= f) = .ok b ↔ ∃ a, x = .ok a ∧ f a = .ok b := by
  cases x <;> simp [bind, Except.bind]

/-- What is turned into something else succeeds if it does. -/
lemma map_eq_ok {x : Except ε α} {f : α → β} {b : β} :
    x.map f = .ok b ↔ ∃ a, x = .ok a ∧ f a = b := by
  cases x <;> simp [Except.map]

/-- A sequence succeeds if both of its parts do. -/
@[simp] lemma run_bind_eq_ok {x : StateT σ (Except ε) α} {f : α → StateT σ (Except ε) β} {s s' : σ}
    {b : β} : (x >>= f).run s = .ok (b, s') ↔
      ∃ a s₁, x.run s = .ok (a, s₁) ∧ (f a).run s₁ = .ok (b, s') := by
  rw [StateT.run_bind]
  rcases hx : x.run s with e | ⟨a, s₁⟩
  · constructor
    · intro h
      cases h
    · rintro ⟨a, s₁, h, -⟩
      cases h
  · constructor
    · intro h
      exact ⟨a, s₁, rfl, h⟩
    · rintro ⟨a', s₁', h, hf⟩
      cases h
      exact hf

@[simp] lemma run_pure_eq_ok {s s' : σ} {a b : α} :
    (pure a : StateT σ (Except ε) α).run s = .ok (b, s') ↔ a = b ∧ s = s' := by
  constructor
  · intro h
    cases h
    exact ⟨rfl, rfl⟩
  · rintro ⟨rfl, rfl⟩
    rfl

@[simp] lemma run_throw_eq_ok {s s' : σ} {e : ε} {b : α} :
    (throw e : StateT σ (Except ε) α).run s = .ok (b, s') ↔ False :=
  ⟨fun h => (by cases h), False.elim⟩

@[simp] lemma run_get_eq_ok {s s' s₁ : σ} :
    (get : StateT σ (Except ε) σ).run s = .ok (s₁, s') ↔ s = s₁ ∧ s = s' := by
  constructor
  · intro h
    cases h
    exact ⟨rfl, rfl⟩
  · rintro ⟨rfl, rfl⟩
    rfl

@[simp] lemma run_set_eq_ok {s s' s₁ : σ} {u : PUnit} :
    (set s₁ : StateT σ (Except ε) PUnit).run s = .ok (u, s') ↔ s₁ = s' := by
  constructor
  · intro h
    cases h
    rfl
  · rintro rfl
    rfl

@[simp] lemma run_modify_eq_ok {s s' : σ} {f : σ → σ} {u : PUnit} :
    (modify f : StateT σ (Except ε) PUnit).run s = .ok (u, s') ↔ f s = s' := by
  constructor
  · intro h
    cases h
    rfl
  · rintro rfl
    rfl

/-! ### Successes and failures -/

/-- A sequence without a state fails if its first part does, or if its second part does after that. -/
lemma bind_eq_error {x : Except ε α} {f : α → Except ε β} {e : ε} :
    (x >>= f) = .error e ↔ x = .error e ∨ ∃ a, x = .ok a ∧ f a = .error e := by
  cases x <;> simp [bind, Except.bind]

/-- The run of a computation ends with `ok` or fails with `bad`. -/
def Runs (x : StateT σ (Except ε) α) (s : σ) (ok : α → σ → Prop) (bad : ε → Prop) : Prop :=
  match x.run s with
  | .ok (a, s') => ok a s'
  | .error e => bad e

variable {s : σ} {ok : α → σ → Prop} {bad : ε → Prop}

/-- What holds at the end of a run holds of the result that the run has. -/
lemma Runs.of_ok {x : StateT σ (Except ε) α} (h : Runs x s ok bad) {a : α} {s' : σ}
    (hrun : x.run s = .ok (a, s')) : ok a s' := by
  unfold Runs at h
  rw [hrun] at h
  exact h

/-- What holds of a failure holds of the failure that the run has. -/
lemma Runs.of_error {x : StateT σ (Except ε) α} (h : Runs x s ok bad) {e : ε}
    (hrun : x.run s = .error e) : bad e := by
  unfold Runs at h
  rw [hrun] at h
  exact h

/-- A run that does not fail has a result. -/
lemma Runs.exists_ok {x : StateT σ (Except ε) α} (h : Runs x s ok bad) (hbad : ∀ e, ¬bad e) :
    ∃ a s', x.run s = .ok (a, s') ∧ ok a s' := by
  cases hrun : x.run s with
  | ok r => exact ⟨r.1, r.2, rfl, h.of_ok hrun⟩
  | error e => exact absurd (h.of_error hrun) (hbad e)

/-- The conditions at the end of a run can be weakened. -/
lemma Runs.mono {x : StateT σ (Except ε) α} {ok' : α → σ → Prop} {bad' : ε → Prop}
    (h : Runs x s ok bad) (hok : ∀ a s', ok a s' → ok' a s') (hbad : ∀ e, bad e → bad' e) :
    Runs x s ok' bad' := by
  unfold Runs at h ⊢
  split
  · rename_i a s' hrun
    rw [hrun] at h
    exact hok a s' h
  · rename_i e hrun
    rw [hrun] at h
    exact hbad e h

@[simp] lemma runs_pure {a : α} : Runs (pure a : StateT σ (Except ε) α) s ok bad ↔ ok a s := Iff.rfl

@[simp] lemma runs_throw {e : ε} : Runs (throw e : StateT σ (Except ε) α) s ok bad ↔ bad e :=
  Iff.rfl

@[simp] lemma runs_get {ok : σ → σ → Prop} :
    Runs (get : StateT σ (Except ε) σ) s ok bad ↔ ok s s := Iff.rfl

@[simp] lemma runs_set {s' : σ} {ok : PUnit → σ → Prop} :
    Runs (set s' : StateT σ (Except ε) PUnit) s ok bad ↔ ok ⟨⟩ s' := Iff.rfl

/-- A sequence ends as its second part does where the first one ends. -/
@[simp] lemma runs_bind {x : StateT σ (Except ε) α} {f : α → StateT σ (Except ε) β}
    {ok : β → σ → Prop} :
    Runs (x >>= f) s ok bad ↔ Runs x s (fun a s' => Runs (f a) s' ok bad) bad := by
  unfold Runs
  rw [StateT.run_bind]
  rcases x.run s with e | ⟨a, s₁⟩ <;> rfl

end

/-! ### Walks -/

section
variable {γ δ : Type} {m : Type → Type} [Monad m]

/-- A walk starts with its first step. -/
lemma forM_cons_eq {c : γ} {l : List γ} {g : γ → m Unit} : (c :: l).forM g = g c >>= fun _ => l.forM g := rfl

/-- Walks with the same steps are the same. -/
lemma forM_eq_of_forall₂ {f : γ → m Unit} {g : δ → m Unit} {l : List γ}
    {l' : List δ} (h : List.Forall₂ (fun a b => g b = f a) l l') :
    l'.forM g = l.forM f := by
  induction h with
  | nil => rfl
  | cons hab _ ih => rw [forM_cons_eq, forM_cons_eq, hab, ih]

/-- Walks with results have the same results if they have the same steps. -/
lemma mapM_eq_of_forall₂ {α : Type} [LawfulMonad m] {f : γ → m α} {g : δ → m α}
    {l : List γ} {l' : List δ} (h : List.Forall₂ (fun a b => g b = f a) l l') :
    l'.mapM g = l.mapM f := by
  induction h with
  | nil => rfl
  | cons hab _ ih => rw [List.mapM_cons, List.mapM_cons, hab, ih]

variable {ε : Type} {f : γ → Except ε Unit} {l : List γ} {c : γ} {e : ε}

/-- A walk succeeds if every step does. -/
lemma forM_eq_ok : l.forM f = .ok () ↔ ∀ c ∈ l, f c = .ok () := by
  induction l with
  | nil => exact ⟨fun _ _ hc => absurd hc List.not_mem_nil, fun _ => rfl⟩
  | cons c l ih =>
    rw [forM_cons_eq, List.forall_mem_cons, bind_eq_ok, ← ih]
    exact ⟨fun ⟨_, hc, hl⟩ => ⟨hc, hl⟩, fun ⟨hc, hl⟩ => ⟨(), hc, hl⟩⟩

/-- A walk fails if a step does and those before it succeed. -/
lemma forM_append_cons_eq_error {before after : List γ} (hbefore : ∀ c ∈ before, f c = .ok ())
    (hc : f c = .error e) : (before ++ c :: after).forM f = .error e := by
  induction before with
  | nil =>
    rw [List.nil_append, forM_cons_eq, hc]
    rfl
  | cons c' before ih =>
    obtain ⟨hc', hbefore⟩ := List.forall_mem_cons.mp hbefore
    rw [List.cons_append, forM_cons_eq, hc']
    exact ih hbefore

/-- A walk that fails does so at some step, and the steps before it succeed. -/
lemma exists_of_forM_eq_error (h : l.forM f = .error e) : ∃ before c after,
    l = before ++ c :: after ∧ (∀ c ∈ before, f c = .ok ()) ∧ f c = .error e := by
  induction l with
  | nil => cases h
  | cons c l ih =>
    rw [forM_cons_eq] at h
    cases hc : f c with
    | error e' =>
      rw [hc] at h
      cases h
      exact ⟨[], c, l, rfl, fun _ hmem => absurd hmem List.not_mem_nil, hc⟩
    | ok u =>
      rw [hc] at h
      obtain ⟨before, c', after, rfl, hbefore, hc'⟩ := ih h
      exact ⟨c :: before, c', after, rfl, List.forall_mem_cons.mpr ⟨hc, hbefore⟩, hc'⟩

end

end TreeCompiler
