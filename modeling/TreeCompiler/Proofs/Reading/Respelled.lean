import TreeCompiler.Proofs.Reading.Content
import TreeCompiler.Proofs.Reading.Edit
import TreeCompiler.Tree.Shape

/-!
# Reading does not see the spelling

A shape respects a form if it reads the same before and after every edit of the form
(`Shape.Respects`).  Records, tuples, choices and lists respect their forms if their parts do; with this
the shapes of all constructs respect how these are spelt, to any depth, and a program is read alike
from all of its spellings (`Nesting.program_respelled`).

No edit makes a value enter more containers than before.  Only an operator gets a container around it,
and the mark beside it is one already.
-/

namespace TreeCompiler

open FieldShape (required part)
open Record (cons nil)

variable {α β τ : Type} {levels : Nat} {v v' : Value} {f : Form}

/-! ### Shapes and forms -/

/-- A shape reads the same from two values. -/
def Shape.Agrees (s : Shape α) (v v' : Value) : Prop :=
  ∀ levels a, s levels v = .ok a ↔ s levels v' = .ok a

/-- A shape reads the same before and after every edit of a form. -/
def Shape.Respects (s : Shape α) (f : Form) : Prop := ∀ v v', Edit f v v' → s.Agrees v v'

/-- The value of a field that may as well be absent. -/
def FieldShape.Omits (field : FieldShape α) (v : Value) : Prop :=
  ∃ a, field.ifMissing = some a ∧ ∀ levels, field.shape levels v = .ok a

/-- The fields of a record respect the forms of fields, in order. -/
inductive Record.Respects (absent : List (String × Value)) :
    {τ : Type} → Record τ → List (String × Form) → Prop
  | nil : Respects absent nil []
  | cons {α β : Type} {field : FieldShape α} {rest : Record β} {f : Form}
      {fields : List (String × Form)} (hfield : field.shape.Respects f)
      (habsent : ∀ v, (field.name, v) ∈ absent → field.Omits v)
      (hrest : Respects absent rest fields) :
      Respects absent (cons field rest) ((field.name, f) :: fields)

namespace Shape

variable {s : Shape α}

/-- What is made of something respects its form. -/
lemma Respects.map (h : s.Respects f) (g : α → β) : (s.map g).Respects f := by
  intro v v' hedit levels b
  have hread := h v v' hedit levels
  unfold Shape.map
  rw [map_eq_ok, map_eq_ok]
  simp only [hread]

/-- Where nothing is read, every form is respected. -/
lemma respects_never : (never : Shape α).Respects f := fun _ _ _ _ _ => Iff.rfl

/-- Scalars are not edited. -/
lemma respects_scalar : s.Respects .scalar := by
  intro v v' hedit
  cases hedit

/-- A list respects the form of its items. -/
lemma Respects.list (h : s.Respects f) : s.list.Respects (.list f) := by
  intro v v' hedit levels l
  cases hedit with
  | @item before behind _ w w' hedit =>
    have hitems : ∀ left l, items s left (.append (before ++ w :: behind) .done) = .ok l ↔
        items s left (.append (before ++ w' :: behind) .done) = .ok l := by
      intro left
      induction before with
      | nil =>
        intro l
        simp only [List.nil_append, items_cons_iff, h w w' hedit left]
      | cons u before ih =>
        intro l
        simp only [List.cons_append, items_cons_iff, ih]
    simp only [list_iff, hitems]

end Shape

/-- Edits lead from containers to containers. -/
lemma Edit.isContainer (h : Edit f v v') :
    ((∃ items, v = .sequence items) ∨ ∃ fields, v = .mapping fields) ∧
      ((∃ items, v' = .sequence items) ∨ ∃ fields, v' = .mapping fields) := by
  induction h with
  | permuted | unknown | absent | field | content => exact ⟨.inr ⟨_, rfl⟩, .inr ⟨_, rfl⟩⟩
  | listed | noLine => exact ⟨.inr ⟨_, rfl⟩, .inl ⟨_, rfl⟩⟩
  | operator | part | item => exact ⟨.inl ⟨_, rfl⟩, .inl ⟨_, rfl⟩⟩
  | operand _ ih | present _ ih | construct _ ih => exact ih

namespace Shape

variable {s : Shape α}

/-- A container is not the word for no value. -/
lemma optional_of_isContainer
    (h : (∃ items, v = .sequence items) ∨ ∃ fields, v = .mapping fields) :
    optional s levels v = (s levels v).map some := by
  rcases h with ⟨items, rfl⟩ | ⟨fields, rfl⟩
  all_goals rfl

/-- Something that may be none respects the form of what it is otherwise. -/
lemma Respects.optional (h : s.Respects f) : s.optional.Respects (.optional f) := by
  intro v v' hedit levels a
  cases hedit with
  | present hedit =>
    rw [optional_of_isContainer hedit.isContainer.1, optional_of_isContainer hedit.isContainer.2,
      map_eq_ok, map_eq_ok]
    simp only [h v v' hedit levels]

end Shape

/-! ### Records -/

/-- The order of the values for a field does not matter. -/
lemma FieldShape.filledBy_perm {field : FieldShape α} {slot : Option α} {values values' : List Value}
    {a : α} (h : values.Perm values') :
    field.FilledBy levels slot values a ↔ field.FilledBy levels slot values' a := by
  match values, values' with
  | [], _ => rw [h.nil_eq]
  | [v], _ => rw [h.singleton_eq]
  | _ :: _ :: _, [] => exact absurd h.length_eq (by simp)
  | _ :: _ :: _, [_] => exact absurd h.length_eq (by simp)
  | _ :: _ :: _, _ :: _ :: _ => cases slot <;> exact Iff.rfl

/-- A value that may be absent is read like its absence. -/
lemma FieldShape.Omits.filledBy_iff {field : FieldShape α} (h : field.Omits v) {slot : Option α}
    {a : α} (hslot : slot = none) :
    field.FilledBy levels slot [v] a ↔ field.FilledBy levels slot [] a := by
  obtain ⟨b, hmissing, hread⟩ := h
  subst hslot
  change field.shape levels v = .ok a ↔ field.ifMissing = some a
  rw [hmissing, hread, Except.ok.injEq, Option.some.injEq]

namespace Record

variable {r : Record τ} {fields : List (String × Form)} {absent : List (String × Value)}

/-- The names of a record are those of its form. -/
lemma Respects.names_eq (h : Respects absent r fields) : r.names = fields.map Prod.fst := by
  induction h with
  | nil => rfl
  | cons _ _ _ ih => exact congrArg _ ih

/-- A record is filled alike by the fields of an object in any order. -/
lemma filledBy_perm (r : Record τ) {l l' : List (String × Value)} (h : l.Perm l') {slots : r.Slots}
    {x : τ} : r.FilledBy levels l slots x ↔ r.FilledBy levels l' slots x := by
  induction r with
  | nil => rfl
  | cons field rest ih =>
    have hvalues : (valuesOf l field.name).Perm (valuesOf l' field.name) := (h.filter _).map _
    exact and_congr (FieldShape.filledBy_perm hvalues) ih

/-- A record is filled alike with and without a value that may be absent. -/
lemma Respects.filledBy_absent (h : Respects absent r fields) {l : List (String × Value)}
    {name : String} (hv : (name, v) ∈ absent) (hname : name ∉ l.map Prod.fst) {x : τ} :
    r.FilledBy levels ((name, v) :: l) r.empty x ↔ r.FilledBy levels l r.empty x := by
  induction h with
  | nil => rfl
  | @cons _ _ field rest _ _ _ habsent _ ih =>
    refine and_congr ?_ ih
    by_cases hfield : name = field.name
    · subst hfield
      rw [valuesOf_cons_self, valuesOf_eq_nil hname]
      exact (habsent v hv).filledBy_iff rfl
    · rw [valuesOf_cons_of_ne hfield]

/-- A record is filled alike before and after an edit of a field's value. -/
lemma Respects.filledBy_edited (h : Respects absent r fields) (hnames : r.names.Nodup)
    {l : List (String × Value)} {name : String} (hf : (name, f) ∈ fields) (hedit : Edit f v v')
    {slots : r.Slots} {x : τ} :
    r.FilledBy levels ((name, v) :: l) slots x ↔ r.FilledBy levels ((name, v') :: l) slots x := by
  induction h with
  | nil => cases hf
  | @cons _ _ field rest g _ hrespects _ hrest ih =>
    obtain ⟨hfield, hnames⟩ := List.nodup_cons.mp hnames
    obtain ⟨a, others⟩ := x
    change field.FilledBy levels slots.1 (valuesOf ((name, v) :: l) field.name) a ∧
        rest.FilledBy levels ((name, v) :: l) slots.2 others ↔
      field.FilledBy levels slots.1 (valuesOf ((name, v') :: l) field.name) a ∧
        rest.FilledBy levels ((name, v') :: l) slots.2 others
    rcases List.mem_cons.mp hf with heq | hf
    · cases heq
      rw [valuesOf_cons_self, valuesOf_cons_self, filledBy_values_cons, filledBy_values_cons,
        filledBy_cons_of_notMem rest hfield, filledBy_cons_of_notMem rest hfield]
      simp only [hrespects v v' hedit levels]
    · have hother : name ≠ field.name := by
        rintro rfl
        exact hfield (hrest.names_eq ▸ List.mem_map_of_mem hf)
      rw [valuesOf_cons_of_ne hother, valuesOf_cons_of_ne hother, ih hnames hf]

/-- A record respects its form. -/
lemma Respects.shape (h : Respects absent r fields) (hnames : (fields.map Prod.fst).Nodup)
    (habsent : ∀ d ∈ absent, d.1 ∈ fields.map Prod.fst) (name : String) :
    (r.shape name).Respects (.record fields absent) := by
  have hnodup : r.names.Nodup := h.names_eq ▸ hnames
  intro v v' hedit levels x
  cases hedit with
  | permuted hperm =>
    simp only [shape_object_iff r hnodup, hperm.mem_iff, filledBy_perm r hperm]
  | unknown hname hvalue =>
    rw [← h.names_eq] at hname
    simp only [shape_object_iff r hnodup, List.forall_mem_cons, hvalue, implies_true, true_and,
      filledBy_cons_of_notMem r hname]
  | absent hv hname =>
    have hmem := h.names_eq ▸ habsent _ hv
    simp only [shape_object_iff r hnodup, List.forall_mem_cons, hmem, not_true, false_implies,
      true_and, h.filledBy_absent hv hname]
  | @listed _ _ values hlength =>
    have hlength : values.length = r.names.length := by
      rw [hlength, h.names_eq, List.length_map]
    have hflaws : ∀ g ∈ r.names.zip values, g.1 ∉ r.names → g.2.flaw = none :=
      fun g hg hnot => absurd (List.of_mem_zip hg).1 hnot
    rw [← h.names_eq, shape_object_iff r hnodup, shape_list_iff]
    exact exists_congr fun left => and_congr_right fun _ =>
      (and_iff_right hflaws).trans (filledBy_zip r hnodup hlength)
  | field hname hedit =>
    have hmem := h.names_eq ▸ List.mem_map_of_mem (f := Prod.fst) hname
    simp only [shape_object_iff r hnodup, List.forall_mem_cons, hmem, not_true, false_implies,
      true_and, h.filledBy_edited hnodup hname hedit]

/-- A list of values is read alike before and after an edit of one of them. -/
lemma Respects.listedBy_edited (h : Respects absent r fields) (hedit : Edit f v v')
    {before behind : List Form} {values values' : List Value}
    (hfields : fields.map Prod.snd = before ++ f :: behind)
    (hlength : values.length = before.length) {x : τ} :
    r.ListedBy levels (values ++ v :: values') x ↔
      r.ListedBy levels (values ++ v' :: values') x := by
  induction h generalizing before values with
  | nil => simp at hfields
  | cons hrespects _ _ ih =>
    obtain ⟨a, others⟩ := x
    cases before with
    | nil =>
      cases List.length_eq_zero_iff.mp hlength
      obtain ⟨rfl, -⟩ := List.cons.inj hfields
      exact and_congr_left' (hrespects v v' hedit levels a)
    | cons g before =>
      cases values with
      | nil => cases hlength
      | cons u values =>
        exact and_congr_right' (ih (List.cons.inj hfields).2 (Nat.succ.inj hlength))

/-- A record that is written as a sequence only respects the forms of its parts. -/
lemma Respects.tuple {parts : List Form} (h : Respects [] r (parts.map fun f => ("", f)))
    (name : String) : (r.tuple name).Respects (.tuple parts) := by
  intro v v' hedit levels x
  cases hedit with
  | @part before behind _ _ f _ _ hlength hedit =>
    have hfields : ((before ++ f :: behind).map fun f => ("", f)).map Prod.snd =
        before ++ f :: behind := by
      rw [List.map_map]
      exact List.map_id _
    simp only [tuple_list_eq, shape_list_iff, h.listedBy_edited hedit hfields hlength]

/-- An operation respects its form if its mark is a container and the operator is read alike from its
name and from the mapping of the name. -/
lemma respects_operation {mark : FieldShape α} {operator : FieldShape β} {rest : Record τ}
    {operators : List String} {operands : List Form} (name : String)
    (hparts : ((cons mark (cons operator rest)).tuple name).Respects
      (.tuple (.mark :: .scalar :: operands)))
    (hmark : ∀ levels v a, mark.shape levels v = .ok a → ∃ left, levels = left + 1)
    (hoperator : ∀ o ∈ operators, ∀ left a, operator.shape (left + 1) (.string o) = .ok a ↔
      operator.shape (left + 1) (.variant o .null) = .ok a) :
    ((cons mark (cons operator rest)).tuple name).Respects (.operation operators operands) := by
  intro v v' hedit levels x
  cases hedit with
  | operand hedit => exact hparts v v' hedit levels x
  | @operator _ _ o m values ho =>
    obtain ⟨a, b, others⟩ := x
    have hlisted : ∀ left w, (cons mark (cons operator rest)).ListedBy left (m :: w :: values)
        (a, b, others) ↔ mark.shape left m = .ok a ∧ operator.shape left w = .ok b ∧
          rest.ListedBy left values others := fun _ _ => Iff.rfl
    simp only [tuple_list_eq, shape_list_iff, hlisted]
    refine exists_congr fun left => and_congr_right fun _ => and_congr_right fun hread => ?_
    obtain ⟨inner, rfl⟩ := hmark left m a hread
    rw [hoperator o ho]

end Record

/-! ### Choices -/

/-- The variants of a choice respect the forms of variants, in order. -/
inductive Variant.Respect : List (Variant α) → List (String × Form) → Prop
  | nil : Respect [] []
  | cons {variant : Variant α} {variants : List (Variant α)} {f : Form}
      {forms : List (String × Form)} (hvariant : variant.shape.Respects f)
      (hrest : Respect variants forms) :
      Respect (variant :: variants) ((variant.name, f) :: forms)

/-- The variant of a name respects the form of this name. -/
lemma Variant.Respect.of_find {variants : List (Variant α)} {forms : List (String × Form)}
    (h : Respect variants forms) (hnames : (forms.map Prod.fst).Nodup) {name : String}
    (hf : (name, f) ∈ forms) {variant : Variant α} (hfind : find variants name = .ok variant) :
    variant.shape.Respects f := by
  unfold find at hfind
  split at hfind
  · cases hfind
    rename_i hfind
    induction h with
    | nil => cases hf
    | @cons first variants g forms hfirst _ ih =>
      obtain ⟨hnot, hnames⟩ := List.nodup_cons.mp hnames
      rcases List.mem_cons.mp hf with heq | hf
      · cases heq
        rw [List.find?_cons_of_pos (by simp)] at hfind
        cases hfind
        exact hfirst
      · have hmem : name ∈ forms.map Prod.fst := List.mem_map.mpr ⟨_, hf, rfl⟩
        have hother : first.name ≠ name := fun heq => hnot (heq ▸ hmem)
        rw [List.find?_cons_of_neg (by simpa using hother)] at hfind
        exact ih hnames hf hfind
  · cases hfind

/-- A choice respects its form if its variants do. -/
lemma Variant.Respect.choice {variants : List (Variant α)} {forms : List (String × Form)}
    (h : Respect variants forms) (hnames : (forms.map Prod.fst).Nodup) (wrapper : Nat) :
    (Shape.choice wrapper variants).Respects (.choice forms) := by
  intro v v' hedit levels a
  cases hedit with
  | @content _ name f w w' hname hedit =>
    simp only [Shape.choice_iff]
    refine exists_congr fun left => exists_congr fun variant => and_congr_right fun _ =>
      and_congr_right fun hfind => ?_
    exact h.of_find hnames hname hfind w w' hedit left a

/-- A construct that is no mark is edited as its form says. -/
lemma Shape.Respects.construct {s : Shape α} {c : Construct} (h : s.Respects c.form)
    (hc : c ≠ .mark) : s.Respects (.construct c) := by
  intro v v' hedit
  cases hedit with
  | noLine => exact absurd rfl hc
  | construct hedit => exact h v v' hedit

end TreeCompiler
