import TreeCompiler.Document.Shape
import TreeCompiler.Proofs.Reading.Levels
import TreeCompiler.Proofs.Threading

/-!
# What records and choices read

What a record reads is taken apart into what its fields read (`Record.Parts`), and what a choice
reads into what one of its variants reads.
-/

namespace TreeCompiler

variable {α β τ : Type} {levels : Nat} {v : Value}

/-! ### Levels -/

/-- Containers are entered if there are levels left. -/
lemma Reading.enter_eq_ok {taken left : Nat} :
    Reading.enter levels taken = .ok left ↔ levels = left + taken := by
  unfold Reading.enter
  split
  · rw [Except.ok.injEq]
    omega
  · constructor
    · intro h
      cases h
    · intro h
      omega

/-! ### Lists -/

namespace Shape

variable {s : Shape α}

/-- The items that are read are read one by one. -/
lemma forall_of_items {values : Items} {l : List α} (h : items s levels values = .ok l) :
    ∀ a ∈ l, ∃ v, s levels v = .ok a := by
  match values with
  | .done =>
    cases h
    exact fun a ha => nomatch ha
  | .broken f => cases h
  | .item value rest =>
    rw [items] at h
    obtain ⟨a, hvalue, h⟩ := bind_eq_ok.mp h
    obtain ⟨others, hrest, h⟩ := bind_eq_ok.mp h
    cases h
    intro b hb
    rcases List.mem_cons.mp hb with rfl | hb
    · exact ⟨value, hvalue⟩
    · exact forall_of_items hrest b hb

/-- A list is read from a sequence, which takes a level, and its items one by one. -/
lemma of_list {l : List α} (h : list s levels v = .ok l) :
    ∃ left, levels = left + 1 ∧ ∀ a ∈ l, ∃ v, s left v = .ok a := by
  unfold list at h
  split at h
  · obtain ⟨left, hlevel, hitems⟩ := bind_eq_ok.mp h
    exact ⟨left, Reading.enter_eq_ok.mp hlevel, forall_of_items hitems⟩
  · obtain ⟨found, -, h⟩ := bind_eq_ok.mp h
    cases h

end Shape

/-! ### What a record reads -/

/-- What a field of a record can be: something that its shape reads, or what it is when left out. -/
def FieldShape.Gives (field : FieldShape α) (levels : Nat) (a : α) : Prop :=
  (∃ v, field.shape levels v = .ok a) ∨ field.ifMissing = some a ∨ field.ifCut = some a

namespace Record

/-- Each part of a record is what its field can be. -/
def Parts (levels : Nat) {τ : Type} : Record τ → τ → Prop
  | nil, () => True
  | cons field rest, (a, others) => field.Gives levels a ∧ rest.Parts levels others

/-- Each part of a record that is read already is what its field can be. -/
def SlotParts (levels : Nat) {τ : Type} : (r : Record τ) → r.Slots → Prop
  | nil, () => True
  | cons field rest, slots =>
    (∀ a, slots.1 = some a → field.Gives levels a) ∧ rest.SlotParts levels slots.2

/-- Nothing is read of a record at first. -/
lemma slotParts_empty (r : Record τ) : r.SlotParts levels r.empty := by
  induction r with
  | nil => trivial
  | cons field rest ih => exact ⟨fun a ha => (by cases ha), ih⟩

/-- A value that is offered to a record becomes what its field can be. -/
lemma slotParts_of_offer {key : String} (r : Record τ) {slots slots' : r.Slots}
    (hslots : r.SlotParts levels slots) (h : r.offer levels key v slots = .ok (some slots')) :
    r.SlotParts levels slots' := by
  induction r with
  | nil => cases h
  | cons field rest ih =>
    obtain ⟨hfirst, hothers⟩ := hslots
    rw [offer] at h
    split at h
    · split at h
      · cases h
      · obtain ⟨a, hvalue, h⟩ := bind_eq_ok.mp h
        cases h
        refine ⟨fun b hb => ?_, hothers⟩
        cases hb
        exact .inl ⟨v, hvalue⟩
    · obtain ⟨others, hoffer, h⟩ := bind_eq_ok.mp h
      cases others with
      | none => cases h
      | some others =>
        cases h
        exact ⟨hfirst, ih hothers hoffer⟩

/-- A record is made of what is read of it, and of what its fields are when left out. -/
lemma parts_of_finish (r : Record τ) {slots : r.Slots} {x : τ} (hslots : r.SlotParts levels slots)
    (h : r.finish slots = .ok x) : r.Parts levels x := by
  induction r with
  | nil => trivial
  | cons field rest ih =>
    obtain ⟨hfirst, hothers⟩ := hslots
    rw [finish] at h
    split at h
    · cases h
    case h_2 a ha =>
      obtain ⟨others, hfinish, h⟩ := bind_eq_ok.mp h
      cases h
      refine ⟨?_, ih hothers hfinish⟩
      rcases Option.or_eq_some_iff.mp ha with ha | ⟨-, ha⟩
      · exact hfirst a ha
      · exact .inr (.inl ha)

/-- What is read from the fields of a mapping. -/
lemma parts_of_readFields (r : Record τ) {fields : Fields} {slots : r.Slots} {x : τ}
    (hslots : r.SlotParts levels slots) (h : r.readFields levels fields slots = .ok x) :
    r.Parts levels x := by
  match fields with
  | .done => exact r.parts_of_finish hslots h
  | .broken f | .noKey v => cases h
  | .field key value rest =>
    rw [readFields] at h
    obtain ⟨key, -, h⟩ := bind_eq_ok.mp h
    obtain ⟨offered, hoffer, h⟩ := bind_eq_ok.mp h
    cases offered with
    | none =>
      obtain ⟨-, -, h⟩ := bind_eq_ok.mp h
      exact r.parts_of_readFields hslots h
    | some slots' => exact r.parts_of_readFields (r.slotParts_of_offer hslots hoffer) h

/-- What is read from the items of a sequence. -/
lemma parts_of_readItems (r : Record τ) {expected : String} {place : Nat} {items left : Items}
    {x : τ} (h : r.readItems levels expected place items = .ok (x, left)) : r.Parts levels x := by
  induction r generalizing place items with
  | nil => trivial
  | cons field rest ih =>
    cases items with
    | broken f => cases h
    | item value items =>
      rw [readItems] at h
      obtain ⟨a, hvalue, h⟩ := bind_eq_ok.mp h
      obtain ⟨⟨others, more⟩, hrest, h⟩ := bind_eq_ok.mp h
      cases h
      exact ⟨.inl ⟨value, hvalue⟩, ih hrest⟩
    | done =>
      rw [readItems] at h
      split at h
      · cases h
      case h_2 a ha =>
        obtain ⟨⟨others, more⟩, hrest, h⟩ := bind_eq_ok.mp h
        cases h
        exact ⟨.inr (.inr ha), ih hrest⟩

/-- What is read from a sequence of the fields of a record. -/
lemma parts_of_readSequence (r : Record τ) {name : String} {items : Items} {x : τ}
    (h : r.readSequence levels name items = .ok x) : r.Parts levels x := by
  obtain ⟨⟨y, left⟩, hitems, h⟩ := bind_eq_ok.mp h
  cases left <;> cases h
  exact r.parts_of_readItems hitems

/-- A record that is written as a sequence takes a level. -/
lemma parts_of_tuple {r : Record τ} {name : String} {x : τ} (h : r.tuple name levels v = .ok x) :
    ∃ left, levels = left + 1 ∧ r.Parts left x := by
  unfold tuple at h
  split at h
  · obtain ⟨left, hlevel, h⟩ := bind_eq_ok.mp h
    exact ⟨left, Reading.enter_eq_ok.mp hlevel, r.parts_of_readSequence h⟩
  · obtain ⟨found, -, h⟩ := bind_eq_ok.mp h
    cases h

/-- A record takes a level, as a mapping and as a sequence. -/
lemma parts_of_shape {r : Record τ} {name : String} {x : τ} (h : r.shape name levels v = .ok x) :
    ∃ left, levels = left + 1 ∧ r.Parts left x := by
  unfold shape at h
  split at h
  · obtain ⟨left, hlevel, h⟩ := bind_eq_ok.mp h
    exact ⟨left, Reading.enter_eq_ok.mp hlevel, r.parts_of_readFields r.slotParts_empty h⟩
  · obtain ⟨left, hlevel, h⟩ := bind_eq_ok.mp h
    exact ⟨left, Reading.enter_eq_ok.mp hlevel, r.parts_of_readSequence h⟩
  · obtain ⟨found, -, h⟩ := bind_eq_ok.mp h
    cases h

/-- The parts of something that is made from a record. -/
lemma parts_of_map_shape {r : Record β} {name : String} {f : β → α} {a : α}
    (h : (r.shape name).map f levels v = .ok a) :
    ∃ left x, levels = left + 1 ∧ r.Parts left x ∧ f x = a := by
  obtain ⟨x, hx, ha⟩ := map_eq_ok.mp h
  obtain ⟨left, hlevels, hparts⟩ := parts_of_shape hx
  exact ⟨left, x, hlevels, hparts, ha⟩

end Record

/-! ### Choices -/

/-- What a variant gives where a choice has some levels left. -/
def Variant.Gives (wrapper levels : Nat) (a : α) (variant : Variant α) : Prop :=
  match variant.content with
  | .none b => b = a
  | .some _ s => ∃ left v, levels = left + wrapper ∧ s left v = .ok a

/-- A variant is found among the variants. -/
lemma Variant.mem_of_find {variants : List (Variant α)} {name : String} {variant : Variant α}
    (h : find variants name = .ok variant) : variant ∈ variants := by
  unfold find at h
  split at h
  · cases h
    exact List.mem_of_find?_eq_some ‹_›
  · cases h

/-- A variant without content gives its value. -/
lemma Variant.gives_of_bare {wrapper : Nat} {variant : Variant α} {a : α}
    (h : variant.bare = .ok a) : variant.Gives wrapper levels a := by
  unfold bare at h
  unfold Gives
  cases hcontent : variant.content with
  | none b =>
    rw [hcontent] at h
    cases h
    rfl
  | some kind s =>
    rw [hcontent] at h
    cases h

/-- The content of a variant gives what it is read as. -/
lemma Variant.gives_of_shape {wrapper left : Nat} {variant : Variant α} {a : α}
    (h : variant.shape left v = .ok a) (hlevels : levels = left + wrapper) :
    variant.Gives wrapper levels a := by
  unfold shape at h
  unfold Gives
  cases hcontent : variant.content with
  | none b =>
    rw [hcontent] at h
    obtain ⟨-, -, h⟩ := map_eq_ok.mp h
    exact h
  | some kind s =>
    rw [hcontent] at h
    exact ⟨left, v, hlevels, h⟩

/-- A choice is read as one of its variants. -/
lemma Shape.of_choice {wrapper : Nat} {variants : List (Variant α)} {a : α}
    (h : choice wrapper variants levels v = .ok a) :
    ∃ variant ∈ variants, variant.Gives wrapper levels a := by
  unfold choice at h
  split at h
  · cases h
  · obtain ⟨name, -, h⟩ := bind_eq_ok.mp h
    obtain ⟨variant, hfind, h⟩ := bind_eq_ok.mp h
    exact ⟨variant, Variant.mem_of_find hfind, Variant.gives_of_bare h⟩
  · obtain ⟨variant, hfind, h⟩ := bind_eq_ok.mp h
    exact ⟨variant, Variant.mem_of_find hfind, Variant.gives_of_bare h⟩
  · obtain ⟨left, hlevels, h⟩ := bind_eq_ok.mp h
    split at h
    · obtain ⟨name, -, h⟩ := bind_eq_ok.mp h
      obtain ⟨variant, hfind, h⟩ := bind_eq_ok.mp h
      obtain ⟨b, hvalue, h⟩ := bind_eq_ok.mp h
      refine ⟨variant, Variant.mem_of_find hfind, ?_⟩
      split at h
      · cases h
        exact Variant.gives_of_shape hvalue (Reading.enter_eq_ok.mp hlevels)
      all_goals cases h
    · obtain ⟨found, -, h⟩ := bind_eq_ok.mp h
      cases h
    · cases h
    · cases h
  all_goals cases h

/-- The parts of a variant that is written as a sequence. -/
lemma Variant.parts_of_tuple {wrapper : Nat} {choice name : String} {r : Record β} {f : β → α}
    {a : α} (h : (Variant.tuple choice name r f).Gives wrapper levels a) :
    ∃ left x, levels = left + 1 + wrapper ∧ r.Parts left x ∧ f x = a := by
  obtain ⟨outer, v, hlevels, h⟩ := h
  obtain ⟨x, hx, ha⟩ := map_eq_ok.mp h
  obtain ⟨left, rfl, hparts⟩ := Record.parts_of_tuple hx
  exact ⟨left, x, hlevels, hparts, ha⟩

/-- The parts of a variant that is written as a record. -/
lemma Variant.parts_of_struct {wrapper : Nat} {choice name : String} {r : Record β} {f : β → α}
    {a : α} (h : (Variant.struct choice name r f).Gives wrapper levels a) :
    ∃ left x, levels = left + 1 + wrapper ∧ r.Parts left x ∧ f x = a := by
  obtain ⟨outer, v, hlevels, h⟩ := h
  obtain ⟨left, x, rfl, hparts, ha⟩ := Record.parts_of_map_shape h
  exact ⟨left, x, hlevels, hparts, ha⟩

end TreeCompiler
