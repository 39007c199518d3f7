import Mathlib.Data.List.Forall2
import Mathlib.Data.List.MinMax
import Mathlib.Data.List.Perm.Basic
import Mathlib.Order.Nat

/-!
# Lists that correspond, and lists with keys

Declarations, slots, offsets and pieces of code are lists that correspond element by element
(`List.Forall₂`): what is at a place of one list, or in a part of it, has its counterpart in the
other one.  Names are keys that a list gives at most once, so that what is found under a name does
not depend on where it stands.
-/

namespace TreeCompiler

/-! ### Lists that correspond -/

/-- What corresponds to an element of a list, element by element. -/
lemma forall₂_getElem? {α β : Type} {R : α → β → Prop} {l : List α} {l' : List β}
    (h : List.Forall₂ R l l') {k : Nat} {a : α} (ha : l[k]? = some a) :
    ∃ b, l'[k]? = some b ∧ R a b := by
  induction h generalizing k with
  | nil => cases ha
  | cons hfirst _ ih =>
    cases k with
    | zero =>
      rw [List.getElem?_cons_zero, Option.some.injEq] at ha
      subst ha
      exact ⟨_, List.getElem?_cons_zero, hfirst⟩
    | succ k => exact ih ha

/-- What corresponds to an element of a list. -/
lemma exists_of_forall₂ {α β : Type} {R : α → β → Prop} {l : List α} {l' : List β}
    (h : List.Forall₂ R l l') {a : α} (ha : a ∈ l) : ∃ b ∈ l', R a b := by
  obtain ⟨k, hk⟩ := List.mem_iff_getElem?.mp ha
  obtain ⟨b, hb, hab⟩ := forall₂_getElem? h hk
  exact ⟨b, List.mem_of_getElem? hb, hab⟩

/-- Lists that correspond do so in their parts, if the first parts are of the same length. -/
lemma forall₂_append_of_length {α β : Type} {R : α → β → Prop} {l₁ l₂ : List α}
    {l₁' l₂' : List β} (hlength : l₁.length = l₁'.length)
    (h : List.Forall₂ R (l₁ ++ l₂) (l₁' ++ l₂')) :
    List.Forall₂ R l₁ l₁' ∧ List.Forall₂ R l₂ l₂' := by
  constructor
  · simpa [← hlength] using List.forall₂_take_append _ _ _ h
  · simpa [← hlength] using List.forall₂_drop_append _ _ _ h

/-- The relation of two lists that end with an element each. -/
lemma forall₂_concat {α β : Type} {R : α → β → Prop} {l : List α} {a : α} {l' : List β} :
    List.Forall₂ R (l ++ [a]) l' ↔ ∃ l₁ b, l' = l₁ ++ [b] ∧ List.Forall₂ R l l₁ ∧ R a b := by
  constructor
  · intro h
    induction l generalizing l' with
    | nil =>
      obtain ⟨b, l₁, hb, hnil, rfl⟩ := List.forall₂_cons_left_iff.mp h
      obtain rfl := List.forall₂_nil_left_iff.mp hnil
      exact ⟨[], b, rfl, .nil, hb⟩
    | cons c l ih =>
      obtain ⟨c', l₁, hc, hl, rfl⟩ := List.forall₂_cons_left_iff.mp h
      obtain ⟨l₂, b, rfl, hl₂, hb⟩ := ih hl
      exact ⟨c' :: l₂, b, rfl, .cons hc hl₂, hb⟩
  · rintro ⟨l₁, b, rfl, hl, hb⟩
    exact List.rel_append hl (.cons hb .nil)

/-- The relation of two lists with an element added to each. -/
lemma forall₂_concat_concat {α β : Type} {R : α → β → Prop} {l : List α} {a : α} {l' : List β}
    {b : β} : List.Forall₂ R (l ++ [a]) (l' ++ [b]) ↔ List.Forall₂ R l l' ∧ R a b := by
  rw [forall₂_concat]
  constructor
  · rintro ⟨l₁, c, heq, hl, hc⟩
    obtain ⟨rfl, hsingle⟩ := List.append_inj' heq rfl
    cases hsingle
    exact ⟨hl, hc⟩
  · rintro ⟨hl, hb⟩
    exact ⟨l', b, rfl, hl, hb⟩

/-- Lists that correspond in two ways correspond in both. -/
lemma forall₂_and {α β : Type} {R S : α → β → Prop} {l : List α} {l' : List β}
    (h : List.Forall₂ R l l') (h' : List.Forall₂ S l l') :
    List.Forall₂ (fun a b => R a b ∧ S a b) l l' :=
  List.Forall₂.mp (fun _ _ => And.intro) h h'

/-- Lists that correspond to the same list correspond to each other. -/
lemma forall₂_comp {α β γ : Type} {R : α → β → Prop} {S : β → γ → Prop} {T : α → γ → Prop}
    {l : List α} {m : List β} {k : List γ} (h : List.Forall₂ R l m) (h' : List.Forall₂ S m k)
    (hT : ∀ a b c, R a b → S b c → T a c) : List.Forall₂ T l k := by
  induction h generalizing k with
  | nil =>
    cases h' with
    | nil => exact .nil
  | cons hab _ ih =>
    cases h' with
    | cons hbc h' => exact .cons (hT _ _ _ hab hbc) (ih h')

/-- What corresponding elements share is the same for both lists. -/
lemma map_eq_of_forall₂ {α β γ : Type} {R : α → β → Prop} {f : α → γ} {g : β → γ} {l : List α}
    {l' : List β} (h : List.Forall₂ R l l') (hfg : ∀ a b, R a b → g b = f a) :
    l'.map g = l.map f := by
  induction h with
  | nil => rfl
  | cons hab _ ih => rw [List.map_cons, List.map_cons, hfg _ _ hab, ih]

/-- A function that is defined on all elements of a list maps the list. -/
lemma mapM_eq_some {α β : Type} {f : α → Option β} {l : List α} {l' : List β}
    (h : List.Forall₂ (fun a b => f a = some b) l l') : l.mapM f = some l' := by
  induction h with
  | nil => rfl
  | cons hb _ ih =>
    rw [List.mapM_cons, hb, ih]
    rfl

/-! ### Keys -/

/-- The element of a list without repetitions that is found under its key. -/
lemma find?_eq_some_of_nodup {α : Type} {key : α → String} {l : List α} (h : (l.map key).Nodup)
    {a : α} (ha : a ∈ l) : l.find? (key · == key a) = some a := by
  induction l with
  | nil => cases ha
  | cons b rest ih =>
    rw [List.map_cons, List.nodup_cons] at h
    rcases List.mem_cons.mp ha with rfl | ha
    · exact List.find?_cons_of_pos (beq_self_eq_true _)
    · have hne : ¬(key b == key a) = true := fun heq =>
        h.1 (beq_iff_eq.mp heq ▸ List.mem_map_of_mem ha)
      rw [List.find?_cons_of_neg (by exact hne)]
      exact ih h.2 ha

/-- What is found by name in a list without repetitions does not depend on the order. -/
lemma find?_eq_of_perm {α : Type} {key : α → String} {l l' : List α} (h : l'.Perm l)
    (hnodup : (l.map key).Nodup) {name : String} :
    l'.find? (key · == name) = l.find? (key · == name) := by
  cases hfound : l.find? (key · == name) with
  | some a =>
    have hname := List.find?_some hfound
    rw [beq_iff_eq] at hname
    subst hname
    have ha : a ∈ l' := h.mem_iff.mpr (List.mem_of_find?_eq_some hfound)
    exact find?_eq_some_of_nodup ((h.map key).nodup_iff.mpr hnodup) ha
  | none =>
    rw [List.find?_eq_none] at hfound ⊢
    exact fun a ha => hfound a (h.mem_iff.mp ha)

/-- If keys are not given twice, what is found for a key is what stands there. -/
lemma lookup_eq_some_iff {α β : Type} [DecidableEq α] {l : List (α × β)}
    (h : (l.map Prod.fst).Nodup) {n : α} {t : β} : l.lookup n = some t ↔ (n, t) ∈ l := by
  induction l with
  | nil => simp
  | cons x rest ih =>
    obtain ⟨m, s⟩ := x
    rw [List.map_cons, List.nodup_cons] at h
    rw [List.lookup_cons, List.mem_cons]
    by_cases hnm : n = m
    · subst hnm
      have hnot : (n, t) ∉ rest := fun hmem => h.1 (List.mem_map.mpr ⟨(n, t), hmem, rfl⟩)
      simp only [beq_self_eq_true, Option.some.injEq, Prod.mk.injEq, true_and, hnot, or_false]
      exact eq_comm
    · have hbeq : (n == m) = false := beq_eq_false_iff_ne.mpr hnm
      simp only [hbeq, ih h.2, Prod.mk.injEq, hnm, false_and, false_or]

/-- Lists that tell which element they are from have no element in common. -/
lemma nodup_flatMap_of_key {α β κ : Type} (key : α → κ) (back : β → κ) {f : α → List β}
    {l : List α} (hnodup : (l.map key).Nodup) (hf : ∀ a ∈ l, (f a).Nodup)
    (hback : ∀ a ∈ l, ∀ b ∈ f a, back b = key a) : (l.flatMap f).Nodup := by
  induction l with
  | nil => exact .nil
  | cons a l ih =>
    rw [List.map_cons, List.nodup_cons] at hnodup
    obtain ⟨hfirst, hrest⟩ := List.forall_mem_cons.mp hf
    obtain ⟨hbackFirst, hbackRest⟩ := List.forall_mem_cons.mp hback
    rw [List.flatMap_cons, List.nodup_append]
    refine ⟨hfirst, ih hnodup.2 hrest hbackRest, fun b hb c hc heq => hnodup.1 ?_⟩
    obtain ⟨a', ha', hc⟩ := List.mem_flatMap.mp hc
    rw [← hbackFirst b hb, heq, hbackRest a' ha' c hc]
    exact List.mem_map_of_mem ha'

/-! ### The first, the largest, and the next -/

/-- The first fault of a list is that of the first element that has one. -/
lemma findSome?_eq_map_find? {α β : Type} {fault? : α → Option β} {bad : α → Bool} {g : α → β}
    {l : List α} (h : ∀ a ∈ l, fault? a = if bad a then some (g a) else none) :
    l.findSome? fault? = (l.find? bad).map g := by
  induction l with
  | nil => rfl
  | cons a rest ih =>
    obtain ⟨ha, hrest⟩ := List.forall_mem_cons.mp h
    rw [List.findSome?_cons, List.find?_cons, ha]
    cases bad a with
    | true => rfl
    | false => exact ih hrest

/-- A number of a list is no larger than the largest one. -/
lemma le_foldr_max {α : Type} {f : α → Nat} {l : List α} {a : α} (h : a ∈ l) :
    f a ≤ (l.map f).foldr max 0 :=
  List.le_max_of_le (List.mem_map_of_mem (f := f) h) le_rfl

/-- A path that ends no higher than it starts has a step to a point that steps need not go up to. -/
lemma exists_mem_of_isChain {R : Nat → Nat → Prop} {P : Nat → Prop}
    (hR : ∀ a b, R a b → a < b ∨ P b) {path : List Nat} {a b : Nat}
    (h : (a :: (path ++ [b])).IsChain R) (hle : b ≤ a) : ∃ m ∈ path ++ [b], P m := by
  induction path generalizing a with
  | nil =>
    rcases hR a b (List.isChain_cons_cons.mp h).1 with hlt | hb
    · omega
    · exact ⟨b, List.mem_singleton_self b, hb⟩
  | cons c path ih =>
    rw [List.cons_append, List.isChain_cons_cons] at h
    rcases hR a c h.1 with hlt | hc
    · obtain ⟨m, hm, hP⟩ := ih h.2 (by omega)
      exact ⟨m, List.mem_cons_of_mem _ hm, hP⟩
    · exact ⟨c, List.mem_cons_self, hc⟩

end TreeCompiler
