import TreeCompiler.Proofs.Reading.Record

/-!
# What lists, records and choices are read from

A list is read from its items one by one, and a choice from the content of a variant.  A record is
read from an object if and only if each of its fields is read from the values that the object has for
the field's name, and the other values have no faults (`Record.shape_object_iff`).  The order of the
fields does not occur in this.  It is read from a list if and only if its fields are read from the
values of the list in order (`Record.shape_list_iff`).
-/

namespace TreeCompiler

variable {α β τ : Type} {levels : Nat} {v : Value}

namespace Shape

variable {s : Shape α} {v : Value} {values : List Value} {l : List α}

/-- Items are read from the first one on. -/
lemma items_cons_iff : items s levels (.append (v :: values) .done) = .ok l ↔
    ∃ a others, s levels v = .ok a ∧ items s levels (.append values .done) = .ok others ∧
      l = a :: others := by
  change (s levels v).bind _ = _ ↔ _
  constructor
  · intro h
    obtain ⟨a, hvalue, h⟩ := bind_eq_ok.mp h
    obtain ⟨others, hothers, h⟩ := bind_eq_ok.mp h
    cases h
    exact ⟨a, others, hvalue, hothers, rfl⟩
  · rintro ⟨a, others, hvalue, hothers, rfl⟩
    exact bind_eq_ok.mpr ⟨a, hvalue, bind_eq_ok.mpr ⟨others, hothers, rfl⟩⟩

/-- A list takes a level, in which its items are read. -/
lemma list_iff : list s levels (.list values) = .ok l ↔
    ∃ left, levels = left + 1 ∧ items s left (.append values .done) = .ok l := by
  change (Reading.enter levels 1).bind _ = _ ↔ _
  constructor
  · intro h
    obtain ⟨left, hlevels, h⟩ := bind_eq_ok.mp h
    exact ⟨left, Reading.enter_eq_ok.mp hlevels, h⟩
  · rintro ⟨left, hlevels, h⟩
    exact bind_eq_ok.mpr ⟨left, Reading.enter_eq_ok.mpr hlevels, h⟩

/-- A list is read if all of its items are. -/
lemma list_map {l : List β} {written : β → Value} {f : β → α}
    (h : ∀ b ∈ l, s levels (written b) = .ok (f b)) :
    list s (levels + 1) (.list (l.map written)) = .ok (l.map f) := by
  refine list_iff.mpr ⟨levels, rfl, ?_⟩
  induction l with
  | nil => rfl
  | cons b rest ih =>
    have hrest := ih fun b hb => h b (List.mem_cons_of_mem _ hb)
    exact items_cons_iff.mpr ⟨_, _, h b List.mem_cons_self, hrest, rfl⟩

end Shape

/-! ### Objects -/

/-- The values that an object has for a name. -/
def valuesOf (l : List (String × Value)) (name : String) : List Value :=
  (l.filter (·.1 = name)).map Prod.snd

/-- A field with the name comes first among the values. -/
lemma valuesOf_cons_self {l : List (String × Value)} {name : String} {v : Value} :
    valuesOf ((name, v) :: l) name = v :: valuesOf l name := by
  unfold valuesOf
  rw [List.filter_cons_of_pos (by simp)]
  rfl

/-- A field with another name is not among the values. -/
lemma valuesOf_cons_of_ne {l : List (String × Value)} {name other : String} {v : Value}
    (h : other ≠ name) : valuesOf ((other, v) :: l) name = valuesOf l name := by
  unfold valuesOf
  rw [List.filter_cons_of_neg (by simpa using h)]

/-- There are no values for a name that the object does not have. -/
lemma valuesOf_eq_nil {l : List (String × Value)} {name : String} (h : name ∉ l.map Prod.fst) :
    valuesOf l name = [] := by
  unfold valuesOf
  rw [List.filter_eq_nil_iff.mpr, List.map_nil]
  intro f hf hname
  exact h (of_decide_eq_true hname ▸ List.mem_map_of_mem hf)

/-- A field can be something where the values for its name are some values, behind what is read of it
already. -/
def FieldShape.FilledBy (field : FieldShape α) (levels : Nat) : Option α → List Value → α → Prop
  | some b, [], a => b = a
  | none, [], a => field.ifMissing = some a
  | none, [v], a => field.shape levels v = .ok a
  | _, _ :: _, _ => False

namespace Record

/-- The names of the fields of a record. -/
def names {τ : Type} : Record τ → List String
  | nil => []
  | cons field rest => field.name :: rest.names

/-- Each field of a record is read from the values that an object has for its name, behind what is read
of the record already. -/
def FilledBy (levels : Nat) (l : List (String × Value)) {τ : Type} : (r : Record τ) → r.Slots → τ → Prop
  | nil, (), () => True
  | cons field rest, slots, (a, others) =>
    field.FilledBy levels slots.1 (valuesOf l field.name) a ∧ rest.FilledBy levels l slots.2 others

/-- Behind all fields of an object a record is what is read of it. -/
lemma finish_eq_ok (r : Record τ) {slots : r.Slots} {x : τ} :
    r.finish slots = .ok x ↔ r.FilledBy levels [] slots x := by
  induction r with
  | nil => exact ⟨fun _ => trivial, fun _ => rfl⟩
  | cons field rest ih =>
    obtain ⟨a, others⟩ := x
    obtain ⟨slot, slots⟩ := slots
    have hfirst : slot.or field.ifMissing = some a ↔
        field.FilledBy levels slot (valuesOf [] field.name) a := by
      cases slot with
      | none => rfl
      | some b => exact Option.some.injEq b a ▸ Iff.rfl
    simp only [finish, FilledBy]
    rw [← hfirst, ← ih]
    cases slot.or field.ifMissing with
    | none => exact ⟨fun h => (by cases h), fun h => (by cases h.1)⟩
    | some b =>
      constructor
      · intro h
        obtain ⟨y, hy, h⟩ := bind_eq_ok.mp h
        cases h
        exact ⟨rfl, hy⟩
      · rintro ⟨hb, hothers⟩
        cases hb
        exact bind_eq_ok.mpr ⟨others, hothers, rfl⟩

/-- A field that a record does not have is not among those that are read. -/
lemma filledBy_cons_of_notMem (r : Record τ) {l : List (String × Value)} {name : String} {v : Value}
    (h : name ∉ r.names) {slots : r.Slots} {x : τ} :
    r.FilledBy levels ((name, v) :: l) slots x ↔ r.FilledBy levels l slots x := by
  induction r with
  | nil => rfl
  | cons field rest ih =>
    rw [names, List.mem_cons, not_or] at h
    obtain ⟨hfirst, hrest⟩ := h
    rw [FilledBy, FilledBy, ih hrest, valuesOf_cons_of_ne hfirst]

/-- A value for a name that a record does not have is offered in vain. -/
lemma offer_of_notMem (r : Record τ) {name : String} {v : Value} (h : name ∉ r.names)
    (slots : r.Slots) : r.offer levels name v slots = .ok none := by
  induction r with
  | nil => rfl
  | cons field rest ih =>
    rw [names, List.mem_cons, not_or] at h
    obtain ⟨hfirst, hrest⟩ := h
    rw [offer, if_neg hfirst, ih hrest]
    rfl

/-- A value that is offered in vain is for a name that the record does not have. -/
lemma notMem_of_offer (r : Record τ) {name : String} {v : Value} {slots : r.Slots}
    (h : r.offer levels name v slots = .ok none) : name ∉ r.names := by
  induction r with
  | nil => exact List.not_mem_nil
  | cons field rest ih =>
    rw [offer] at h
    split at h
    · split at h
      · cases h
      · obtain ⟨a, -, h⟩ := bind_eq_ok.mp h
        cases h
    case isFalse hname =>
      obtain ⟨offered, hoffer, h⟩ := bind_eq_ok.mp h
      cases offered with
      | some offered => cases h
      | none =>
        rw [names, List.mem_cons, not_or]
        exact ⟨hname, ih hoffer⟩

section
variable {β : Type} {field : FieldShape α} {rest : Record β} {name : String} {v : Value}

/-- A value for the first field of a record. -/
lemma offer_first {slots slots' : (cons field rest).Slots} :
    (cons field rest).offer levels field.name v slots = .ok (some slots') ↔
      slots.1 = none ∧ ∃ a, field.shape levels v = .ok a ∧ slots' = (some a, slots.2) := by
  obtain ⟨slot, slots⟩ := slots
  change (if field.name = field.name then _ else _) = _ ↔ _
  rw [if_pos rfl]
  cases slot with
  | some b => exact ⟨fun h => (by cases h), fun h => (by cases h.1)⟩
  | none =>
    constructor
    · intro h
      obtain ⟨a, hvalue, h⟩ := bind_eq_ok.mp h
      cases h
      exact ⟨rfl, a, hvalue, rfl⟩
    · rintro ⟨-, a, hvalue, rfl⟩
      exact bind_eq_ok.mpr ⟨a, hvalue, rfl⟩

/-- A value for one of the other fields of a record. -/
lemma offer_other (h : name ≠ field.name) {slots slots' : (cons field rest).Slots} :
    (cons field rest).offer levels name v slots = .ok (some slots') ↔
      slots'.1 = slots.1 ∧ rest.offer levels name v slots.2 = .ok (some slots'.2) := by
  obtain ⟨slot, slots⟩ := slots
  obtain ⟨slot', slots'⟩ := slots'
  change (if name = field.name then _ else _) = _ ↔ _
  rw [if_neg h]
  constructor
  · intro h
    obtain ⟨offered, hoffer, h⟩ := bind_eq_ok.mp h
    cases offered with
    | none => cases h
    | some offered =>
      cases h
      exact ⟨rfl, hoffer⟩
  · rintro ⟨hslot, hoffer⟩
    change slot' = slot at hslot
    subst hslot
    exact bind_eq_ok.mpr ⟨some slots', hoffer, rfl⟩

end

/-- The first of the values for a field is read, and there must not be others. -/
lemma filledBy_values_cons {field : FieldShape α} {slot : Option α} {v : Value} {values : List Value}
    {a : α} : field.FilledBy levels slot (v :: values) a ↔
      slot = none ∧ ∃ b, field.shape levels v = .ok b ∧ field.FilledBy levels (some b) values a := by
  cases slot with
  | some b => exact ⟨False.elim, fun h => (by cases h.1)⟩
  | none =>
    cases values with
    | cons w more => exact ⟨False.elim, fun ⟨_, _, _, h⟩ => h⟩
    | nil => exact ⟨fun h => ⟨rfl, a, h, rfl⟩, fun ⟨_, b, h, hb⟩ => hb ▸ h⟩

/-- A value for a field is read in front of the other values. -/
lemma filledBy_cons_of_mem (r : Record τ) (hnames : r.names.Nodup) {l : List (String × Value)}
    {name : String} {v : Value} (h : name ∈ r.names) {slots : r.Slots} {x : τ} :
    r.FilledBy levels ((name, v) :: l) slots x ↔
      ∃ slots', r.offer levels name v slots = .ok (some slots') ∧ r.FilledBy levels l slots' x := by
  induction r with
  | nil => cases h
  | cons field rest ih =>
    obtain ⟨hfield, hrest⟩ := List.nodup_cons.mp hnames
    obtain ⟨a, others⟩ := x
    change field.FilledBy levels slots.1 (valuesOf ((name, v) :: l) field.name) a ∧
      rest.FilledBy levels ((name, v) :: l) slots.2 others ↔ _
    by_cases hname : name = field.name
    · subst hname
      rw [valuesOf_cons_self, filledBy_cons_of_notMem rest hfield, filledBy_values_cons]
      constructor
      · rintro ⟨⟨hslot, b, hvalue, hfirst⟩, hothers⟩
        exact ⟨(some b, slots.2), offer_first.mpr ⟨hslot, b, hvalue, rfl⟩, hfirst, hothers⟩
      · rintro ⟨slots', hoffer, hfirst, hothers⟩
        obtain ⟨hslot, b, hvalue, rfl⟩ := offer_first.mp hoffer
        exact ⟨⟨hslot, b, hvalue, hfirst⟩, hothers⟩
    · have hmem : name ∈ rest.names := (List.mem_cons.mp h).resolve_left hname
      rw [valuesOf_cons_of_ne hname, ih hrest hmem]
      constructor
      · rintro ⟨hfirst, slots', hoffer, hothers⟩
        exact ⟨(slots.1, slots'), (offer_other hname).mpr ⟨rfl, hoffer⟩, hfirst, hothers⟩
      · rintro ⟨⟨slot', slots'⟩, hoffer, hfirst, hothers⟩
        obtain ⟨hslot, hoffer⟩ := (offer_other hname).mp hoffer
        change slot' = slots.1 at hslot
        subst hslot
        exact ⟨hfirst, slots', hoffer, hothers⟩

/-- A value is passed over if it has no faults. -/
lemma skip_eq_ok {v : Value} {u : Unit} : Reading.skip v = .ok u ↔ v.flaw = none := by
  unfold Reading.skip
  cases v.flaw with
  | none => exact ⟨fun _ => rfl, fun _ => rfl⟩
  | some f => exact ⟨fun h => (by cases h), fun h => (by cases h)⟩

/-- What a record is read as from the fields of an object. -/
lemma readFields_eq_ok (r : Record τ) (hnames : r.names.Nodup) {l : List (String × Value)}
    {slots : r.Slots} {x : τ} :
    r.readFields levels (.named l) slots = .ok x ↔
      (∀ f ∈ l, f.1 ∉ r.names → f.2.flaw = none) ∧ r.FilledBy levels l slots x := by
  induction l generalizing slots with
  | nil =>
    have hfinish : r.finish slots = .ok x ↔ r.FilledBy levels [] slots x := r.finish_eq_ok
    change r.finish slots = .ok x ↔ _
    rw [hfinish]
    exact ⟨fun h => ⟨fun f hf => (by cases hf), h⟩, And.right⟩
  | cons f l ih =>
    obtain ⟨name, v⟩ := f
    rw [List.forall_mem_cons]
    by_cases hname : name ∈ r.names
    · rw [filledBy_cons_of_mem r hnames hname]
      change (r.offer levels name v slots).bind _ = _ ↔ _
      constructor
      · intro h
        obtain ⟨offered, hoffer, h⟩ := bind_eq_ok.mp h
        cases offered with
        | none => exact absurd hname (r.notMem_of_offer hoffer)
        | some slots' =>
          obtain ⟨hflaws, hfilled⟩ := ih.mp h
          exact ⟨⟨fun hnot => absurd hname hnot, hflaws⟩, slots', hoffer, hfilled⟩
      · rintro ⟨⟨-, hflaws⟩, slots', hoffer, hfilled⟩
        exact bind_eq_ok.mpr ⟨some slots', hoffer, ih.mpr ⟨hflaws, hfilled⟩⟩
    · rw [filledBy_cons_of_notMem r hname]
      change (r.offer levels name v slots).bind _ = _ ↔ _
      rw [offer_of_notMem r hname]
      change (Reading.skip v).bind _ = _ ↔ _
      constructor
      · intro h
        obtain ⟨u, hskip, h⟩ := bind_eq_ok.mp h
        obtain ⟨hflaws, hfilled⟩ := ih.mp h
        exact ⟨⟨fun _ => skip_eq_ok.mp hskip, hflaws⟩, hfilled⟩
      · rintro ⟨⟨hflaw, hflaws⟩, hfilled⟩
        exact bind_eq_ok.mpr ⟨(), skip_eq_ok.mpr (hflaw hname), ih.mpr ⟨hflaws, hfilled⟩⟩

/-- A record is read from an object if its fields are read from the values for their names, and the
other values have no faults. -/
lemma shape_object_iff (r : Record τ) (hnames : r.names.Nodup) {name : String}
    {l : List (String × Value)} {x : τ} :
    r.shape name levels (.object l) = .ok x ↔ ∃ left, levels = left + 1 ∧
      (∀ f ∈ l, f.1 ∉ r.names → f.2.flaw = none) ∧ r.FilledBy left l r.empty x := by
  change (Reading.enter levels 1).bind _ = _ ↔ _
  constructor
  · intro h
    obtain ⟨left, hlevels, h⟩ := bind_eq_ok.mp h
    exact ⟨left, Reading.enter_eq_ok.mp hlevels, (r.readFields_eq_ok hnames).mp h⟩
  · rintro ⟨left, hlevels, h⟩
    exact bind_eq_ok.mpr ⟨left, Reading.enter_eq_ok.mpr hlevels, (r.readFields_eq_ok hnames).mpr h⟩

/-! ### Lists -/

/-- The fields of a record are read from values in order; at the end fields may be cut off. -/
def ListedBy (levels : Nat) {τ : Type} : Record τ → List Value → τ → Prop
  | nil, values, () => values = []
  | cons field rest, v :: values, (a, others) =>
    field.shape levels v = .ok a ∧ rest.ListedBy levels values others
  | cons field rest, [], (a, others) => field.ifCut = some a ∧ rest.ListedBy levels [] others

/-- What a record is read as from all items of a list. -/
lemma readItems_eq_ok (r : Record τ) {expected : String} {place : Nat} {values : List Value} {x : τ} :
    r.readItems levels expected place (.append values .done) = .ok (x, .done) ↔
      r.ListedBy levels values x := by
  induction r generalizing values place with
  | nil =>
    cases values with
    | nil => exact ⟨fun _ => rfl, fun _ => rfl⟩
    | cons v values => exact ⟨fun h => (by cases h), fun h => (by cases h)⟩
  | cons field rest ih =>
    obtain ⟨a, others⟩ := x
    cases values with
    | nil =>
      simp only [Items.append, List.foldr_nil, readItems, ListedBy]
      cases field.ifCut with
      | none => exact ⟨fun h => (by cases h), fun h => (by cases h.1)⟩
      | some b =>
        constructor
        · intro h
          obtain ⟨⟨others', left⟩, hrest, h⟩ := bind_eq_ok.mp h
          cases h
          exact ⟨rfl, ih.mp hrest⟩
        · rintro ⟨hb, hrest⟩
          cases hb
          exact bind_eq_ok.mpr ⟨(others, .done), ih.mpr hrest, rfl⟩
    | cons v values =>
      change (field.shape levels v).bind _ = _ ↔
        field.shape levels v = .ok a ∧ rest.ListedBy levels values others
      constructor
      · intro h
        obtain ⟨b, hvalue, h⟩ := bind_eq_ok.mp h
        obtain ⟨⟨others', left⟩, hrest, h⟩ := bind_eq_ok.mp h
        cases h
        exact ⟨hvalue, ih.mp hrest⟩
      · rintro ⟨hvalue, hrest⟩
        exact bind_eq_ok.mpr ⟨a, hvalue, bind_eq_ok.mpr ⟨(others, .done), ih.mpr hrest, rfl⟩⟩

/-- What a record is read as from a list, which has nothing behind it. -/
lemma readSequence_eq_ok (r : Record τ) {name : String} {values : List Value} {x : τ} :
    r.readSequence levels name (.append values .done) = .ok x ↔ r.ListedBy levels values x := by
  have hitems : r.readItems levels (r.lengthText name) 0 (.append values .done) = .ok (x, .done) ↔
      r.ListedBy levels values x := r.readItems_eq_ok
  rw [← hitems]
  constructor
  · intro h
    obtain ⟨⟨y, left⟩, hread, h⟩ := bind_eq_ok.mp h
    cases left <;> cases h
    exact hread
  · intro h
    exact bind_eq_ok.mpr ⟨(x, .done), h, rfl⟩

/-- A record is read from a list if its fields are read from the values of the list in order. -/
lemma shape_list_iff (r : Record τ) {name : String} {values : List Value} {x : τ} :
    r.shape name levels (.list values) = .ok x ↔
      ∃ left, levels = left + 1 ∧ r.ListedBy left values x := by
  change (Reading.enter levels 1).bind _ = _ ↔ _
  constructor
  · intro h
    obtain ⟨left, hlevels, h⟩ := bind_eq_ok.mp h
    exact ⟨left, Reading.enter_eq_ok.mp hlevels, r.readSequence_eq_ok.mp h⟩
  · rintro ⟨left, hlevels, h⟩
    exact bind_eq_ok.mpr ⟨left, Reading.enter_eq_ok.mpr hlevels, r.readSequence_eq_ok.mpr h⟩

/-- On a list, a record that is written as a sequence only is read like any other. -/
lemma tuple_list_eq (r : Record τ) {name : String} {values : List Value} :
    r.tuple name levels (.list values) = r.shape name levels (.list values) := rfl

/-- An object of all fields in order fills a record like the list of these. -/
lemma filledBy_zip (r : Record τ) (hnames : r.names.Nodup) {values : List Value} {x : τ}
    (hlength : values.length = r.names.length) :
    r.FilledBy levels (r.names.zip values) r.empty x ↔ r.ListedBy levels values x := by
  induction r generalizing values with
  | nil => exact ⟨fun _ => List.length_eq_zero_iff.mp hlength, fun _ => trivial⟩
  | cons field rest ih =>
    obtain ⟨a, others⟩ := x
    obtain ⟨hfield, hrest⟩ := List.nodup_cons.mp hnames
    cases values with
    | nil => cases hlength
    | cons v values =>
      have hother : field.name ∉ (rest.names.zip values).map Prod.fst := by
        intro h
        obtain ⟨f, hf, hname⟩ := List.mem_map.mp h
        exact hfield (hname ▸ (List.of_mem_zip hf).1)
      change field.FilledBy levels none
          (valuesOf ((field.name, v) :: rest.names.zip values) field.name) a ∧
        rest.FilledBy levels ((field.name, v) :: rest.names.zip values) rest.empty others ↔
          field.shape levels v = .ok a ∧ rest.ListedBy levels values others
      rw [valuesOf_cons_self, valuesOf_eq_nil hother, filledBy_cons_of_notMem rest hfield,
        ih hrest (Nat.succ.inj hlength)]
      rfl

/-! ### Reading a record from its fields -/

/-- The fields of a record are read from values in order. -/
def Reads (levels : Nat) {τ : Type} : Record τ → List Value → τ → Prop
  | nil, values, () => values = []
  | cons field rest, values, (a, others) =>
    ∃ v more, values = v :: more ∧ field.shape levels v = .ok a ∧ rest.Reads levels more others

/-- A record has as many values as names. -/
lemma Reads.length_eq {r : Record τ} {values : List Value} {x : τ} (h : r.Reads levels values x) :
    values.length = r.names.length := by
  induction r generalizing values with
  | nil =>
    cases h
    rfl
  | cons field rest ih =>
    obtain ⟨a, others⟩ := x
    obtain ⟨v, more, rfl, -, hmore⟩ := h
    exact congrArg Nat.succ (ih hmore)

/-- A record whose fields are read from values in order is read from their list. -/
lemma Reads.listedBy {r : Record τ} {values : List Value} {x : τ} (h : r.Reads levels values x) :
    r.ListedBy levels values x := by
  induction r generalizing values with
  | nil => exact h
  | cons field rest ih =>
    obtain ⟨a, others⟩ := x
    obtain ⟨v, more, rfl, hvalue, hmore⟩ := h
    exact ⟨hvalue, ih hmore⟩

/-- A record is read from an object of its fields. -/
lemma shape_object {r : Record τ} (hnames : r.names.Nodup) (values : List Value) {x : τ}
    (h : r.Reads levels values x) (name : String) :
    r.shape name (levels + 1) (.object (r.names.zip values)) = .ok x :=
  (r.shape_object_iff hnames).mpr
    ⟨levels, rfl, fun _ hf hnot => absurd (List.of_mem_zip hf).1 hnot,
      (r.filledBy_zip hnames h.length_eq).mpr h.listedBy⟩

/-- A record that is written as a sequence is read from the list of its fields. -/
lemma tuple_list {r : Record τ} {values : List Value} {x : τ} (h : r.Reads levels values x)
    (name : String) : r.tuple name (levels + 1) (.list values) = .ok x := by
  rw [tuple_list_eq]
  exact r.shape_list_iff.mpr ⟨levels, rfl, h.listedBy⟩

/-- What is made from a record is read from an object of its fields. -/
lemma map_shape_object {r : Record β} {name : String} {f : β → α} {values : List Value}
    {fields : List (String × Value)} {x : β} {a : α} (hnames : r.names.Nodup)
    (h : r.Reads levels values x) (hfields : fields = r.names.zip values) (ha : f x = a) :
    (r.shape name).map f (levels + 1) (.object fields) = .ok a := by
  rw [hfields]
  exact map_eq_ok.mpr ⟨x, shape_object hnames values h name, ha⟩

end Record

/-! ### Variants -/

namespace Shape

variable {wrapper : Nat} {variants : List (Variant α)} {variant : Variant α} {name : String} {a : α}

/-- A choice is read from the name of a variant without content. -/
lemma choice_name (hfind : Variant.find variants name = .ok variant) (h : variant.bare = .ok a) :
    choice wrapper variants levels (.string name) = .ok a := by
  change (Variant.find variants name).bind _ = _
  rw [hfind]
  exact h

/-- A choice is read from the content of a variant. -/
lemma choice_variant (hfind : Variant.find variants name = .ok variant)
    (h : variant.shape levels v = .ok a) :
    choice wrapper variants (levels + wrapper) (.variant name v) = .ok a := by
  change (Reading.enter (levels + wrapper) wrapper).bind _ = _
  rw [Reading.enter_eq_ok.mpr rfl]
  change (Variant.find variants name).bind _ = _
  rw [hfind]
  change (variant.shape levels v).bind _ = _
  rw [h]
  rfl

/-- A choice is read from the mapping of a name if the variant of this name is read from the content. -/
lemma choice_iff : choice wrapper variants levels (.variant name v) = .ok a ↔
      ∃ left variant, levels = left + wrapper ∧ Variant.find variants name = .ok variant ∧
        variant.shape left v = .ok a := by
  constructor
  · intro h
    change (Reading.enter levels wrapper).bind _ = _ at h
    obtain ⟨left, hlevels, h⟩ := bind_eq_ok.mp h
    change (Variant.find variants name).bind _ = _ at h
    obtain ⟨variant, hfind, h⟩ := bind_eq_ok.mp h
    obtain ⟨b, hvalue, h⟩ := bind_eq_ok.mp h
    cases h
    exact ⟨left, variant, Reading.enter_eq_ok.mp hlevels, hfind, hvalue⟩
  · rintro ⟨left, variant, rfl, hfind, hvalue⟩
    exact choice_variant hfind hvalue

variable {r : Record β} {choiceName : String} {f : β → α} {values : List Value}
  {fields : List (String × Value)} {x : β}

/-- A choice is read from the parts of a variant that is written as a sequence. -/
lemma choice_tuple (hfind : Variant.find variants name = .ok (.tuple choiceName name r f))
    (h : r.Reads levels values x) (ha : f x = a) :
    choice wrapper variants (levels + 1 + wrapper) (.variant name (.list values)) = .ok a :=
  choice_variant hfind (map_eq_ok.mpr ⟨x, Record.tuple_list h _, ha⟩)

/-- A choice is read from the parts of a variant that is written as a record. -/
lemma choice_struct (hfind : Variant.find variants name = .ok (.struct choiceName name r f))
    (hnames : r.names.Nodup) (h : r.Reads levels values x) (hfields : fields = r.names.zip values)
    (ha : f x = a) :
    choice wrapper variants (levels + 1 + wrapper) (.variant name (.object fields)) = .ok a :=
  choice_variant hfind (Record.map_shape_object hnames h hfields ha)

end Shape

end TreeCompiler
