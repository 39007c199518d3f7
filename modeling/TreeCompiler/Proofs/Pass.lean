import Mathlib.Tactic.Lemma
import TreeCompiler.Pass

/-!
# How passes end

A pass over the tables either ends with a result or fails, and leaves tables behind in both cases.
`Step.Ends s t ok bad` says that the run of `s` on `t` ends with a result and tables that satisfy
`ok`, or fails with a cause and tables that satisfy `bad`.  The equations below compute this
condition along the structure of a pass, so that a statement about a whole pass reduces to
statements about the tables it goes through.
-/

namespace TreeCompiler

namespace Step

variable {ε ε' α β : Type}

/-- The result of a step on some tables, and the tables it leaves. -/
def outcome (s : Step ε α) (t : Tables) : Except ε α × Tables := StateT.run s.run t

/-- The run of a step ends with `ok` or fails with `bad`. -/
def Ends (s : Step ε α) (t : Tables) (ok : α → Tables → Prop) (bad : ε → Tables → Prop) : Prop :=
  match s.outcome t with
  | (.ok a, t') => ok a t'
  | (.error e, t') => bad e t'

variable {t : Tables} {ok : α → Tables → Prop} {bad : ε → Tables → Prop}

/-- What holds at the end of a run holds of the result that the run has. -/
lemma Ends.of_ok {s : Step ε α} (h : s.Ends t ok bad) {a : α} {t' : Tables}
    (hrun : s.outcome t = (.ok a, t')) : ok a t' := by
  unfold Ends at h
  rw [hrun] at h
  exact h

/-- What holds of a failure holds of the failure that the run has. -/
lemma Ends.of_error {s : Step ε α} (h : s.Ends t ok bad) {e : ε} {t' : Tables}
    (hrun : s.outcome t = (.error e, t')) : bad e t' := by
  unfold Ends at h
  rw [hrun] at h
  exact h

/-- The conditions at the end of a run can be weakened. -/
lemma Ends.mono {s : Step ε α} {ok' : α → Tables → Prop} {bad' : ε → Tables → Prop}
    (h : s.Ends t ok bad) (hok : ∀ a t', ok a t' → ok' a t')
    (hbad : ∀ e t', bad e t' → bad' e t') : s.Ends t ok' bad' := by
  unfold Ends at h ⊢
  split
  · rename_i a t' hrun
    rw [hrun] at h
    exact hok a t' h
  · rename_i e t' hrun
    rw [hrun] at h
    exact hbad e t' h

/-- Two things that hold at the end of a run hold together. -/
lemma Ends.and {s : Step ε α} {ok' : α → Tables → Prop} {bad' : ε → Tables → Prop}
    (h : s.Ends t ok bad) (h' : s.Ends t ok' bad') :
    s.Ends t (fun a t' => ok a t' ∧ ok' a t') (fun e t' => bad e t' ∧ bad' e t') := by
  unfold Ends at h h' ⊢
  split <;> rename_i hrun <;> rw [hrun] at h h' <;> exact ⟨h, h'⟩

/-! ### The building blocks of passes -/

@[simp] lemma ends_pure {a : α} : (pure a : Step ε α).Ends t ok bad ↔ ok a t := Iff.rfl

@[simp] lemma ends_throw {e : ε} : (throw e : Step ε α).Ends t ok bad ↔ bad e t := Iff.rfl

@[simp] lemma ends_get {ok : Tables → Tables → Prop} :
    (get : Step ε Tables).Ends t ok bad ↔ ok t t := Iff.rfl

@[simp] lemma ends_set {t' : Tables} {ok : Unit → Tables → Prop} :
    (set t' : Step ε PUnit).Ends t ok bad ↔ ok () t' := Iff.rfl

@[simp] lemma ends_modify {f : Tables → Tables} {ok : Unit → Tables → Prop} :
    (modify f : Step ε PUnit).Ends t ok bad ↔ ok () (f t) := Iff.rfl

/-- A sequence ends as its second step does where the first one ends. -/
@[simp] lemma ends_bind {s : Step ε α} {f : α → Step ε β} {ok : β → Tables → Prop} :
    (s >>= f).Ends t ok bad ↔ s.Ends t (fun a t' => (f a).Ends t' ok bad) bad := by
  have hrun : (s >>= f).outcome t = match s.outcome t with
      | (.ok a, t') => (f a).outcome t'
      | (.error e, t') => (.error e, t') := by
    change StateT.run (ExceptT.run (s >>= f)) t = _
    simp only [ExceptT.run_bind, StateT.run_bind, outcome]
    rcases hs : StateT.run (ExceptT.run s) t with ⟨r, t'⟩
    cases r <;> rfl
  unfold Ends
  rw [hrun]
  rcases s.outcome t with ⟨r, t'⟩
  cases r <;> rfl

/-- A step followed by a function ends as the step does, up to the function. -/
@[simp] lemma ends_map {s : Step ε α} {f : α → β} {ok : β → Tables → Prop} :
    (f <$> s).Ends t ok bad ↔ s.Ends t (fun a t' => ok (f a) t') bad := by
  rw [map_eq_pure_bind]
  simp only [ends_bind, ends_pure]

/-- A step whose result is not used ends as the step does. -/
@[simp] lemma ends_discard {s : Step ε α} {ok : PUnit → Tables → Prop} :
    (discard s).Ends t ok bad ↔ s.Ends t (fun _ t' => ok () t') bad := by
  unfold discard
  rw [map_const]
  exact ends_map

@[simp] lemma ends_failAt {line : UInt32} {cause : ε} {bad : Located ε → Tables → Prop} :
    (Pass.failAt line cause : Pass ε α).Ends t ok bad ↔ bad (.atLine line cause) t := Iff.rfl

/-- A step whose causes are put in other terms ends as the step does, up to these terms. -/
lemma ends_adapt {s : Step ε α} {g : ε → ε'} {bad : ε' → Tables → Prop} :
    Ends (ExceptT.adapt g s) t ok bad ↔ s.Ends t ok fun e => bad (g e) := by
  have hrun : outcome (ExceptT.adapt g s) t = ((s.outcome t).1.mapError g, (s.outcome t).2) := by
    change StateT.run (ExceptT.run (ExceptT.adapt g s)) t = _
    unfold ExceptT.adapt
    simp only [ExceptT.run_mk, StateT.run_map, outcome]
    rfl
  unfold Ends
  rw [hrun]
  rcases s.outcome t with ⟨r, t'⟩
  cases r <;> rfl

/-- Blaming a line changes only what a failure says. -/
@[simp] lemma ends_atLine {s : Step ε α} {line : UInt32} {bad : Located ε → Tables → Prop} :
    (s.atLine line).Ends t ok bad ↔ s.Ends t ok fun e => bad (.atLine line e) :=
  ends_adapt

/-- Blaming no line changes only what a failure says. -/
@[simp] lemma ends_nowhere {s : Step ε α} {bad : Located ε → Tables → Prop} :
    (s.nowhere).Ends t ok bad ↔ s.Ends t ok fun e => bad (.nowhere e) :=
  ends_adapt

/-! ### Lists of steps -/

/-- An invariant of the tables, which may depend on the elements done so far, is kept by a list of
steps if every step keeps it. -/
lemma ends_forM {f : α → Step ε PUnit} (inv : List α → Tables → Prop) {bad : ε → Tables → Prop}
    (l : List α) (start : inv [] t)
    (keep : ∀ before a after, l = before ++ a :: after → ∀ t', inv before t' →
      (f a).Ends t' (fun _ => inv (before ++ [a])) bad) :
    (l.forM f).Ends t (fun _ => inv l) bad := by
  suffices h : ∀ rest before : List α, l = before ++ rest → ∀ t', inv before t' →
      (rest.forM f).Ends t' (fun _ => inv l) bad from h l [] rfl t start
  intro rest
  induction rest with
  | nil =>
    intro before hl t' ht'
    rw [List.append_nil] at hl
    subst hl
    exact ht'
  | cons a rest ih =>
    intro before hl t' ht'
    change (f a >>= fun _ => rest.forM f).Ends t' _ _
    rw [ends_bind]
    refine (keep before a rest hl t' ht').mono (fun _ t'' h => ?_) fun _ _ h => h
    exact ih (before ++ [a]) (by simpa using hl) t'' h

/-- An invariant of the tables and of the results so far is kept by a list of steps if every step
keeps it. -/
lemma ends_mapM {f : α → Step ε β} (inv : List α → List β → Tables → Prop)
    {bad : ε → Tables → Prop} (l : List α) (start : inv [] [] t)
    (keep : ∀ before a after bs, l = before ++ a :: after → ∀ t', inv before bs t' →
      (f a).Ends t' (fun b => inv (before ++ [a]) (bs ++ [b])) bad) :
    (l.mapM f).Ends t (inv l) bad := by
  suffices h : ∀ (rest before : List α) (bs : List β), l = before ++ rest → ∀ t', inv before bs t' →
      (rest.mapM f).Ends t' (fun cs => inv l (bs ++ cs)) bad from h l [] [] rfl t start
  intro rest
  induction rest with
  | nil =>
    intro before bs hl t' ht'
    rw [List.append_nil] at hl
    subst hl
    rw [List.mapM_nil, ends_pure, List.append_nil]
    exact ht'
  | cons a rest ih =>
    intro before bs hl t' ht'
    rw [List.mapM_cons, ends_bind]
    refine (keep before a rest bs hl t' ht').mono (fun b t'' h => ?_) fun _ _ h => h
    rw [ends_bind]
    refine (ih (before ++ [a]) (bs ++ [b]) (by simpa using hl) t'' h).mono (fun cs t₃ h₃ => ?_)
      fun _ _ h => h
    rw [ends_pure]
    simpa using h₃

/-- If every step fails with its own fault or keeps an invariant, a list of steps fails with the fault
that comes first. -/
lemma ends_forM_findSome {f : α → Step ε PUnit} {fault? : α → Option ε}
    (inv : List α → Tables → Prop) (l : List α) (start : inv [] t)
    (keep : ∀ before a after, l = before ++ a :: after → ∀ t', inv before t' →
      (f a).Ends t' (fun _ t'' => fault? a = none ∧ inv (before ++ [a]) t'')
        fun e _ => fault? a = some e) :
    (l.forM f).Ends t (fun _ t' => l.findSome? fault? = none ∧ inv l t')
      fun e _ => l.findSome? fault? = some e := by
  refine ends_forM (fun done t' => done.findSome? fault? = none ∧ inv done t') l ⟨rfl, start⟩
    fun before a after hl t' h => ?_
  refine (keep before a after hl t' h.2).mono (fun _ t'' h' => ⟨?_, h'.2⟩) fun e _ he => ?_
  · rw [List.findSome?_append, h.1, Option.none_or, List.findSome?_cons, h'.1]
    rfl
  · rw [hl, List.findSome?_append, h.1, Option.none_or, List.findSome?_cons, he]

/-! ### Steps that keep a property -/

/-- A property of the tables stays true whether the step ends with a result or fails. -/
def Keeps (s : Step ε α) (inv : Tables → Prop) : Prop :=
  ∀ t, inv t → s.Ends t (fun _ => inv) (fun _ => inv)

section
variable {inv : Tables → Prop}

/-- A property is kept by a sequence if it is kept by both steps. -/
lemma Keeps.bind {s : Step ε α} {f : α → Step ε β} (hs : s.Keeps inv) (hf : ∀ a, (f a).Keeps inv) :
    (s >>= f).Keeps inv := by
  intro t ht
  rw [ends_bind]
  exact (hs t ht).mono (fun a t' ht' => hf a t' ht') fun _ _ ht' => ht'

/-- A step that reads the tables keeps a property if what follows does so on the tables that are
read. -/
lemma keeps_get_bind {f : Tables → Step ε β}
    (hf : ∀ t, inv t → (f t).Ends t (fun _ => inv) (fun _ => inv)) :
    ((get : Step ε Tables) >>= f).Keeps inv := by
  intro t ht
  rw [ends_bind, ends_get]
  exact hf t ht

/-- A property is kept by a change that keeps it. -/
lemma keeps_modify {f : Tables → Tables} (hf : ∀ t, inv t → inv (f t)) :
    (modify f : Step ε PUnit).Keeps inv := by
  intro t ht
  rw [ends_modify]
  exact hf t ht

/-- A property is kept by a list of steps that keep it. -/
lemma keeps_forM {f : α → Step ε PUnit} {l : List α} (hf : ∀ a ∈ l, (f a).Keeps inv) :
    (l.forM f).Keeps inv := by
  intro t ht
  refine ends_forM (fun _ => inv) l ht fun before a after hl t' ht' => ?_
  exact hf a (hl ▸ List.mem_append_right _ List.mem_cons_self) t' ht'

/-- Blaming a line does not matter. -/
lemma Keeps.atLine {s : Step ε α} (hs : s.Keeps inv) (line : UInt32) : (s.atLine line).Keeps inv := by
  intro t ht
  rw [ends_atLine]
  exact hs t ht

/-- Blaming no line does not matter. -/
lemma Keeps.nowhere {s : Step ε α} (hs : s.Keeps inv) : s.nowhere.Keeps inv := by
  intro t ht
  rw [ends_nowhere]
  exact hs t ht

/-- Dropping the result does not matter. -/
lemma Keeps.discard {s : Step ε α} (hs : s.Keeps inv) : (discard s).Keeps inv := by
  intro t ht
  rw [ends_discard]
  exact hs t ht

/-- A property that is kept holds of the tables that a run leaves. -/
lemma Keeps.outcome {s : Step ε α} (hs : s.Keeps inv) (ht : inv t) : inv (s.outcome t).2 := by
  have hends := hs t ht
  unfold Ends at hends
  rcases hrun : s.outcome t with ⟨r, t'⟩
  rw [hrun] at hends
  cases r with
  | ok a => exact hends
  | error e => exact hends

end

end Step

end TreeCompiler
