import TreeCompiler.Proofs.Frame.Placement
import TreeCompiler.Proofs.Pass
import TreeCompiler.Proofs.Threading

/-!
# Computations that mirror others

A pass mirrors another one if it succeeds whenever the other one does, with the same result, and
ends with related tables if it starts with related ones (`Step.Mirrors`).  A computation that
threads a state which has nothing to do with names repeats another one if it succeeds in the same
way whenever the other one does (`Repeats`).  Nothing is said about failures, whose messages may
tell names.
-/

namespace TreeCompiler

/-! ### Passes -/

namespace Step

variable {ε α β γ δ : Type} {R : Tables → Tables → Prop} {t t' u u' : Tables}

/-- If a step on some tables ends with a result, then another one on other tables ends with the same
result, and the tables that are left are related. -/
def Mirrors (R : Tables → Tables → Prop) (x : Step ε α) (t : Tables) (y : Step ε α) (t' : Tables) :
    Prop :=
  ∀ a u, x.outcome t = (.ok a, u) → ∃ u', y.outcome t' = (.ok a, u') ∧ R u u'

/-- A step that cannot fail has a result. -/
lemma ends_iff_outcome {x : Step ε α} {ok : α → Tables → Prop} :
    x.Ends t ok (fun _ _ => False) ↔ ∃ a s, x.outcome t = (.ok a, s) ∧ ok a s := by
  unfold Ends
  rcases x.outcome t with ⟨e | a, s⟩ <;> simp

/-- The result of a step is what it ends with. -/
lemma outcome_eq_ok {x : Step ε α} {a : α} : x.outcome t = (.ok a, u) ↔
    x.Ends t (fun b s => b = a ∧ s = u) fun _ _ => False := by
  rw [ends_iff_outcome]
  constructor
  · exact fun h => ⟨a, u, h, rfl, rfl⟩
  · rintro ⟨_, _, h, rfl, rfl⟩
    exact h

/-- A sequence succeeds if both of its steps do. -/
lemma outcome_bind_eq_ok {x : Step ε α} {f : α → Step ε β} {b : β} :
    (x >>= f).outcome t = (.ok b, u) ↔
      ∃ a s, x.outcome t = (.ok a, s) ∧ (f a).outcome s = (.ok b, u) := by
  rw [outcome_eq_ok, ends_bind, ends_iff_outcome]
  simp only [← outcome_eq_ok]

/-- A list of steps succeeds if its parts do. -/
lemma outcome_forM_append {f : α → Step ε PUnit} {l l' : List α} :
    ((l ++ l').forM f).outcome t = (.ok ⟨⟩, u) ↔
      ∃ s, (l.forM f).outcome t = (.ok ⟨⟩, s) ∧ (l'.forM f).outcome s = (.ok ⟨⟩, u) := by
  induction l generalizing t with
  | nil =>
    constructor
    · exact fun h => ⟨t, rfl, h⟩
    · rintro ⟨_, h, hl'⟩
      cases h
      exact hl'
  | cons a l ih =>
    change (f a >>= fun _ => (l ++ l').forM f).outcome t = _ ↔
      ∃ s, (f a >>= fun _ => l.forM f).outcome t = _ ∧ _
    simp only [outcome_bind_eq_ok, ih]
    constructor
    · rintro ⟨b, s₁, ha, s, hl, hl'⟩
      exact ⟨s, ⟨b, s₁, ha, hl⟩, hl'⟩
    · rintro ⟨s, ⟨b, s₁, ha, hl⟩, hl'⟩
      exact ⟨b, s₁, ha, s, hl, hl'⟩

/-- A result is mirrored on related tables. -/
lemma mirrors_pure {a : α} (h : R t t') : (pure a : Step ε α).Mirrors R t (pure a) t' := by
  rintro b u hb
  cases hb
  exact ⟨t', rfl, h⟩

/-- A failure is mirrored by anything. -/
lemma mirrors_throw {e : ε} {y : Step ε α} : (throw e : Step ε α).Mirrors R t y t' := by
  rintro b u hb
  cases hb

/-- A failure at a line is mirrored by anything. -/
lemma mirrors_failAt {line : UInt32} {cause : ε} {y : Pass ε α} :
    (Pass.failAt line cause : Pass ε α).Mirrors R t y t' := mirrors_throw

/-- A sequence is mirrored if both of its steps are. -/
lemma Mirrors.bind {x y : Step ε α} {f g : α → Step ε β} (h : x.Mirrors R t y t')
    (hf : ∀ a u u', R u u' → (f a).Mirrors R u (g a) u') : (x >>= f).Mirrors R t (y >>= g) t' := by
  intro b u hb
  obtain ⟨a, s, ha, hb⟩ := outcome_bind_eq_ok.mp hb
  obtain ⟨s', ha', hs⟩ := h a s ha
  obtain ⟨u', hb', hu⟩ := hf a s s' hs b u hb
  exact ⟨u', outcome_bind_eq_ok.mpr ⟨a, s', ha', hb'⟩, hu⟩

/-- A step that reads the tables is mirrored if what follows is, with the tables that are read. -/
lemma mirrors_get_bind {f g : Tables → Step ε β} (h : (f t).Mirrors R t (g t') t') :
    ((get : Step ε Tables) >>= f).Mirrors R t (get >>= g) t' := h

/-- A step that replaces the tables is mirrored if what follows is, on the new tables. -/
lemma mirrors_set_bind {f g : PUnit → Step ε β} (h : (f ⟨⟩).Mirrors R u (g ⟨⟩) u') :
    ((set u : Step ε PUnit) >>= f).Mirrors R t (set u' >>= g) t' := h

/-- A step that replaces the tables by related ones is mirrored. -/
lemma mirrors_set (h : R u u') : (set u : Step ε PUnit).Mirrors R t (set u') t' := by
  rintro b s hb
  cases hb
  exact ⟨u', rfl, h⟩

/-- A change is mirrored by one that leads to related tables. -/
lemma mirrors_modify {f f' : Tables → Tables} (h : R (f t) (f' t')) :
    (modify f : Step ε PUnit).Mirrors R t (modify f') t' := by
  rintro b s hb
  cases hb
  exact ⟨f' t', rfl, h⟩

/-- Blaming a line does not matter. -/
lemma Mirrors.atLine {x y : Step ε α} (h : x.Mirrors R t y t') (line : UInt32) :
    (x.atLine line).Mirrors R t (y.atLine line) t' := by
  intro a u ha
  rw [outcome_eq_ok, ends_atLine, ← outcome_eq_ok] at ha
  obtain ⟨u', hy, hu⟩ := h a u ha
  rw [outcome_eq_ok] at hy
  exact ⟨u', by rw [outcome_eq_ok, ends_atLine]; exact hy, hu⟩

/-- Blaming no line does not matter. -/
lemma Mirrors.nowhere {x y : Step ε α} (h : x.Mirrors R t y t') :
    x.nowhere.Mirrors R t y.nowhere t' := by
  intro a u ha
  rw [outcome_eq_ok, ends_nowhere, ← outcome_eq_ok] at ha
  obtain ⟨u', hy, hu⟩ := h a u ha
  rw [outcome_eq_ok] at hy
  exact ⟨u', by rw [outcome_eq_ok, ends_nowhere]; exact hy, hu⟩

/-- Dropping the result does not matter. -/
lemma Mirrors.discard {x y : Step ε α} (h : x.Mirrors R t y t') :
    (discard x).Mirrors R t (discard y) t' := by
  intro a u ha
  rw [outcome_eq_ok, ends_discard, ends_iff_outcome] at ha
  obtain ⟨b, s, hx, -, rfl⟩ := ha
  obtain ⟨u', hy, hu⟩ := h b s hx
  refine ⟨u', ?_, hu⟩
  rw [outcome_eq_ok, ends_discard, ends_iff_outcome]
  exact ⟨b, u', hy, rfl, rfl⟩

/-- Steps for elements that correspond are mirrored one after the other. -/
lemma mirrors_forM {l : List α} {l' : List β} {f : α → Step ε PUnit} {g : β → Step ε PUnit}
    (h : List.Forall₂ (fun a b => ∀ t t', R t t' → (f a).Mirrors R t (g b) t') l l') (ht : R t t') :
    (l.forM f).Mirrors R t (l'.forM g) t' := by
  induction h generalizing t t' with
  | nil => exact mirrors_pure ht
  | cons hab _ ih => exact (hab t t' ht).bind fun _ _ _ hu => ih hu

/-- Steps for elements that correspond give the same results one after the other. -/
lemma mirrors_mapM {l : List α} {l' : List β} {f : α → Step ε γ} {g : β → Step ε γ}
    (h : List.Forall₂ (fun a b => ∀ t t', R t t' → (f a).Mirrors R t (g b) t') l l') (ht : R t t') :
    (l.mapM f).Mirrors R t (l'.mapM g) t' := by
  induction h generalizing t t' with
  | nil =>
    rw [List.mapM_nil, List.mapM_nil]
    exact mirrors_pure ht
  | cons hab _ ih =>
    rw [List.mapM_cons, List.mapM_cons]
    exact (hab t t' ht).bind fun _ _ _ hu => (ih hu).bind fun _ _ _ hv => mirrors_pure hv

end Step

/-! ### Computations on a state -/

section
variable {σ ε α β : Type}

/-- Whenever a computation succeeds, another one succeeds in the same way. -/
def Repeats (y x : StateT σ (Except ε) α) : Prop := ∀ s r, x.run s = .ok r → y.run s = .ok r

/-- A computation repeats itself. -/
lemma Repeats.refl (x : StateT σ (Except ε) α) : Repeats x x := fun _ _ h => h

/-- Anything repeats a failure. -/
lemma repeats_throw {y : StateT σ (Except ε) α} {e : ε} : Repeats y (throw e) := by
  rintro s r hr
  cases hr

/-- A sequence repeats one whose parts it repeats, the second part on what the first one gives. -/
lemma Repeats.bind_of_run {x y : StateT σ (Except ε) α} {f g : α → StateT σ (Except ε) β}
    (h : Repeats y x) (hf : ∀ a s s', x.run s = .ok (a, s') → Repeats (g a) (f a)) :
    Repeats (y >>= g) (x >>= f) := by
  rintro s ⟨b, s'⟩ hb
  obtain ⟨a, s₁, ha, hb⟩ := run_bind_eq_ok.mp hb
  exact run_bind_eq_ok.mpr ⟨a, s₁, h _ _ ha, hf a _ _ ha _ _ hb⟩

/-- A sequence repeats one whose parts it repeats. -/
lemma Repeats.bind {x y : StateT σ (Except ε) α} {f g : α → StateT σ (Except ε) β}
    (h : Repeats y x) (hf : ∀ a, Repeats (g a) (f a)) : Repeats (y >>= g) (x >>= f) :=
  h.bind_of_run fun a _ _ _ => hf a

/-- Computations for elements that correspond repeat each other. -/
lemma Repeats.forM {f : α → StateT σ (Except ε) PUnit} {g : β → StateT σ (Except ε) PUnit}
    {l : List α} {l' : List β} (h : List.Forall₂ (fun a b => Repeats (g b) (f a)) l l') :
    Repeats (l'.forM g) (l.forM f) := by
  induction h with
  | nil => exact .refl _
  | cons hab _ ih => exact hab.bind fun _ => ih

end

end TreeCompiler
