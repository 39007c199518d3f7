import TreeCompiler.Document.Error
import TreeCompiler.Document.Plain

/-!
# Shapes of documents

A `Shape α` reads a value as an `α`. It goes through the value from left to right and stops at the
first thing that it cannot use. It is told how many levels of containers it may still enter; a
value that it passes over may nest as it likes.

Records are read from a mapping of their fields, in any order and with unknown fields among them,
or from a sequence of their fields in order. A choice is read from the name of a variant, or from a
mapping of that one name to the variant's content.
-/

namespace TreeCompiler

/-- The outcome of reading. -/
abbrev Reading (α : Type) : Type := Except ReadError α

/-- How to read an `α`, given the number of levels of containers that may be entered. -/
abbrev Shape (α : Type) : Type := Nat → Value → Reading α

namespace Reading

variable {α : Type}

/-- Stops at a fault of the text. -/
def fault (f : Fault) : Reading α := .error (.fault f)

/-- Stops at a text that breaks a rule. -/
def malformed : Reading α := fault .malformed

/-- Stops at content that cannot be used. -/
def refuse (e : ContentError) : Reading α := .error (.content e)

/-- Stops at a value of a wrong kind. -/
def mismatch (expected : String) (v : Value) : Reading α := do
  refuse (.invalidType (← v.unexpected) expected)

/-- The content of a quoted text. -/
def content (text : QuotedText) : Reading String := text.content.mapError .fault

/-- Passes over a value. -/
def skip (v : Value) : Reading Unit :=
  match v.flaw with
  | some f => fault f
  | none => .ok ()

/-- Enters containers, which takes so many levels. -/
def enter (levels taken : Nat) : Reading Nat :=
  if taken ≤ levels then .ok (levels - taken) else malformed

end Reading

namespace Shape

variable {α β : Type}

/-- The same shape, with what is read turned into something else. -/
def map (f : α → β) (s : Shape α) : Shape β := fun levels v => (s levels v).map f

/-- A shape that no value has. -/
def never : Shape α := fun _ _ => Reading.malformed

/-! ### Scalars -/

/-- A text. -/
def string : Shape String := fun _ v =>
  match v with
  | .scalar (.quoted text) => Reading.content text
  | .scalar (.plain text) => .ok text
  | v => Reading.mismatch "a string" v

/-- A truth value. -/
def bool : Shape Bool := fun _ v =>
  match v.resolved with
  | .scalar (.word (.bool b) none) => .ok b
  | v => Reading.mismatch "a boolean" v

/-- An integer between two bounds. -/
def integer (expected : String) (low high : Int) : Shape Int := fun _ v =>
  let check (i : Int) : Reading Int :=
    if low ≤ i ∧ i ≤ high then .ok i else Reading.refuse (.invalidValue (.integer i) expected)
  match v.resolved with
  | .scalar (.number (.ok (.natural n))) => check n
  | .scalar (.number (.ok (.negative i))) => check i
  | v => Reading.mismatch expected v

/-- A signed word. -/
def int32 : Shape Int32 := map Int32.ofInt (integer "i32" (-2147483648) 2147483647)

/-- An unsigned word. -/
def uint32 : Shape UInt32 := map (fun i => UInt32.ofNat i.toNat) (integer "u32" 0 4294967295)

/-- The word for no value. -/
def unit : Shape Unit := fun _ v =>
  match v.resolved with
  | .scalar (.word .null none) => .ok ()
  | v => Reading.mismatch "unit" v

/-- The word for no value, or another shape. -/
def optional (s : Shape α) : Shape (Option α) := fun levels v =>
  match v.resolved with
  | .scalar (.word .null none) => .ok none
  | .scalar (.word .null (some f)) => Reading.fault f
  | _ => (s levels v).map some

/-! ### Sequences -/

/-- Items of one shape. -/
def items (s : Shape α) (levels : Nat) : Items → Reading (List α)
  | .done => .ok []
  | .broken f => Reading.fault f
  | .item value rest => do
    let a ← s levels value
    let others ← items s levels rest
    return a :: others

/-- A sequence of items of one shape. -/
def list (s : Shape α) : Shape (List α) := fun levels v =>
  match v with
  | .sequence values => do
    let levels ← Reading.enter levels 1
    items s levels values
  | v => Reading.mismatch "a sequence" v

end Shape

/-! ### Records -/

/-- A field of a record. -/
structure FieldShape (α : Type) where
  name : String
  shape : Shape α
  /-- What the field is if a mapping does not have it. -/
  ifMissing : Option α := none
  /-- What the field is if a sequence ends before it. -/
  ifCut : Option α := none

/-- A field that a record must have. -/
def FieldShape.required {α : Type} (name : String) (s : Shape α) : FieldShape α :=
  ⟨name, s, none, none⟩

/-- A part of a record that is written as a sequence only, and so needs no name. -/
def FieldShape.part {α : Type} (s : Shape α) : FieldShape α := required "" s

/-- The fields of a record in order; a record is read as nested pairs. -/
inductive Record : Type → Type 1 where
  | nil : Record Unit
  | cons {α β : Type} (field : FieldShape α) (rest : Record β) : Record (α × β)

namespace Record

/-- The number of fields. -/
def size {τ : Type} : Record τ → Nat
  | nil => 0
  | cons _ rest => rest.size + 1

/-- What is already read of the fields of a record. -/
def Slots {τ : Type} : Record τ → Type
  | nil => Unit
  | cons (α := α) _ rest => Option α × rest.Slots

/-- Nothing is read yet. -/
def empty {τ : Type} : (r : Record τ) → r.Slots
  | nil => ()
  | cons _ rest => (none, rest.empty)

/-- Reads the value of a field, which must not have been read before. There is no result if the
record has no such field. -/
def offer {τ : Type} (levels : Nat) (key : String) (value : Value) :
    (r : Record τ) → r.Slots → Reading (Option r.Slots)
  | nil, () => .ok none
  | cons field rest, slots =>
    if key = field.name then
      match slots.1 with
      | some _ => Reading.refuse (.duplicateField field.name)
      | none => do
        let a ← field.shape levels value
        return some (some a, slots.2)
    else do
      let others ← rest.offer levels key value slots.2
      return others.map fun others => (slots.1, others)

/-- The record of what is read. -/
def finish {τ : Type} : (r : Record τ) → r.Slots → Reading τ
  | nil, () => .ok ()
  | cons field rest, slots =>
    match Option.or slots.1 field.ifMissing with
    | none => Reading.refuse (.missingField field.name)
    | some a => do
      let others ← rest.finish slots.2
      return (a, others)

/-- Reads the fields of a mapping. -/
def readFields {τ : Type} (levels : Nat) (r : Record τ) : Fields → r.Slots → Reading τ
  | .done, slots => r.finish slots
  | .broken f, _ => Reading.fault f
  | .noKey _, _ => Reading.malformed
  | .field key value rest, slots => do
    let key ← Reading.content key
    match ← r.offer levels key value slots with
    | some slots => readFields levels r rest slots
    | none => do
      Reading.skip value
      readFields levels r rest slots

/-- Reads the items of a sequence as the fields from a place on. What is left of the items is
returned with the fields. -/
def readItems {τ : Type} (levels : Nat) (expected : String) :
    (r : Record τ) → Nat → Items → Reading (τ × Items)
  | nil, _, items => .ok ((), items)
  | cons field rest, place, items =>
    match items with
    | .broken f => Reading.fault f
    | .item value items => do
      let a ← field.shape levels value
      let (others, left) ← rest.readItems levels expected (place + 1) items
      return ((a, others), left)
    | .done =>
      match field.ifCut with
      | none => Reading.refuse (.invalidLength place expected)
      | some a => do
        let (others, left) ← rest.readItems levels expected (place + 1) .done
        return ((a, others), left)

/-- How a message tells the length of a record as a sequence. -/
def lengthText {τ : Type} (r : Record τ) (name : String) : String :=
  name ++ " with " ++ toString r.size ++ if r.size = 1 then " element" else " elements"

/-- Reads a sequence of the fields of a record, and nothing behind them. -/
def readSequence {τ : Type} (levels : Nat) (r : Record τ) (name : String) (items : Items) :
    Reading τ := do
  let (record, left) ← r.readItems levels (r.lengthText name) 0 items
  match left with
  | .done => return record
  | .broken f => Reading.fault f
  | .item _ _ => Reading.malformed

/-- A record that is written as a mapping or as a sequence. -/
def shape {τ : Type} (name : String) (r : Record τ) : Shape τ := fun levels v =>
  match v with
  | .mapping fields => do
    let levels ← Reading.enter levels 1
    r.readFields levels fields r.empty
  | .sequence items => do
    let levels ← Reading.enter levels 1
    r.readSequence levels name items
  | v => Reading.mismatch name v

/-- A record that is written as a sequence only. -/
def tuple {τ : Type} (name : String) (r : Record τ) : Shape τ := fun levels v =>
  match v with
  | .sequence items => do
    let levels ← Reading.enter levels 1
    r.readSequence levels name items
  | v => Reading.mismatch name v

end Record

/-! ### Choices -/

/-- What belongs to a variant of a choice. -/
inductive Content (α : Type) where
  /-- Nothing. -/
  | none (value : α)
  /-- Something of a shape; `kind` is how a message names such variants. -/
  | some (kind : String) (shape : Shape α)

/-- A variant of a choice. -/
structure Variant (α : Type) where
  name : String
  content : Content α

namespace Variant

variable {α β : Type}

/-- A variant that is nothing but its name. -/
def unit (name : String) (value : α) : Variant α := ⟨name, .none value⟩

/-- A variant with one value as its content. -/
def newtype (name : String) (s : Shape α) : Variant α := ⟨name, .some "newtype variant" s⟩

/-- A variant with a sequence of values as its content. -/
def tuple (choice name : String) (r : Record β) (f : β → α) : Variant α :=
  ⟨name, .some "tuple variant" ((r.tuple ("tuple variant " ++ choice ++ "::" ++ name)).map f)⟩

/-- A variant with a record as its content. -/
def struct (choice name : String) (r : Record β) (f : β → α) : Variant α :=
  ⟨name, .some "struct variant" ((r.shape ("struct variant " ++ choice ++ "::" ++ name)).map f)⟩

/-- The variant of a name. -/
def find (variants : List (Variant α)) (name : String) : Reading (Variant α) :=
  match variants.find? (·.name == name) with
  | some variant => .ok variant
  | none => Reading.refuse (.unknownVariant name (variants.map Variant.name))

/-- A variant of which there is only the name. -/
def bare (variant : Variant α) : Reading α :=
  match variant.content with
  | .none a => .ok a
  | .some kind _ => Reading.refuse (.invalidType .unitVariant kind)

/-- The shape of a variant's content. -/
def shape (variant : Variant α) : Shape α :=
  match variant.content with
  | .none a => Shape.unit.map fun _ => a
  | .some _ s => s

end Variant

/-- A choice between variants. The mapping of a name to its content takes `wrapper` levels. -/
def Shape.choice {α : Type} (wrapper : Nat) (variants : List (Variant α)) : Shape α :=
  fun levels v =>
    match v with
    | .fault f => Reading.fault f
    | .scalar (.quoted text) => do
      let variant ← Variant.find variants (← Reading.content text)
      variant.bare
    | .scalar (.plain text) => do
      let variant ← Variant.find variants text
      variant.bare
    | .mapping fields => do
      let levels ← Reading.enter levels wrapper
      match fields with
      | .field key value rest => do
        let variant ← Variant.find variants (← Reading.content key)
        let a ← variant.shape levels value
        match rest with
        | .done => return a
        | .broken f => Reading.fault f
        | .field _ _ _ | .noKey _ => Reading.malformed
      | .noKey found => Reading.mismatch "variant identifier" found
      | .broken f => Reading.fault f
      | .done => Reading.malformed
    | .scalar (.word _ _) | .scalar (.number _) | .sequence _ => Reading.malformed

end TreeCompiler
