import TreeCompiler.Decimal.Binary64

/-!
# What a text says

A document is a tree of values. The tree of a text that is not well formed holds what the text says
up to its first fault, with the fault at the place where it was met; what comes after is left out.
A reader of the tree that goes from left to right and stops at the first thing that it cannot use
thereby meets the faults of the text and those of its content in the order of the text.

A reader may also pass over a value. It then overlooks faults that only matter to one who needs to
know the value, such as a number that is too large (`Value.flaw`).
-/

namespace TreeCompiler

/-- What is wrong with a text: it breaks a rule, or it ends too early. -/
inductive Fault where
  | malformed
  | cut
deriving DecidableEq, Inhabited

/-- A number. Integers outside of 64 bits are floating point numbers, and so is the integer -0. -/
inductive Number where
  | natural (value : Nat)
  | negative (value : Int)
  | float (negative : Bool) (magnitude : Decimal.Binary64)
deriving DecidableEq, Inhabited

/-- What is wrong with a number. -/
inductive NumberFlaw where
  | malformed
  | cut
  | tooLarge
deriving DecidableEq, Inhabited

/-- What a reader of the number has to say about it. -/
def NumberFlaw.fault : NumberFlaw → Fault
  | .cut => .cut
  | .malformed | .tooLarge => .malformed

/-- What one who passes over the number has to say about it. -/
def NumberFlaw.flaw : NumberFlaw → Option Fault
  | .tooLarge => none
  | .malformed | .cut => some .malformed

/-- A quoted text: what a reader of it gets, and what is wrong for one who passes over it. -/
structure QuotedText where
  content : Except Fault String
  flaw : Option Fault

/-- A quoted text without faults. -/
def QuotedText.ofString (s : String) : QuotedText := ⟨.ok s, none⟩

/-- The words with a meaning. -/
inductive Word where
  | null
  | bool (value : Bool)
deriving DecidableEq, Inhabited

/-- A value that holds no others. -/
inductive Scalar where
  /-- A word, and what is wrong with its letters behind the first one. -/
  | word (word : Word) (flaw : Option Fault)
  | number (number : Except NumberFlaw Number)
  | quoted (text : QuotedText)
  /-- A text without quotes, which is what its reader takes it for. -/
  | plain (text : String)

mutual

/-- A value. -/
inductive Value where
  | scalar (scalar : Scalar)
  | sequence (items : Items)
  | mapping (fields : Fields)
  /-- There is no value, for a fault of the text. -/
  | fault (fault : Fault)

/-- The items of a sequence, up to its end or to a fault in front of the next item. -/
inductive Items where
  | done
  | broken (fault : Fault)
  | item (value : Value) (rest : Items)

/-- The fields of a mapping, up to its end or to a fault in front of the next field. -/
inductive Fields where
  | done
  | broken (fault : Fault)
  /-- A value in the place of the first key. -/
  | noKey (value : Value)
  | field (key : QuotedText) (value : Value) (rest : Fields)

end

instance : Inhabited Value := ⟨.fault .malformed⟩
instance : Inhabited Items := ⟨.done⟩
instance : Inhabited Fields := ⟨.done⟩

/-- A text as a whole: its value, and whether anything comes after it. -/
structure Document where
  root : Value
  trailing : Bool

/-- What one who passes over a scalar has to say about it. -/
def Scalar.flaw : Scalar → Option Fault
  | .word _ flaw => flaw
  | .number (.ok _) => none
  | .number (.error f) => f.flaw
  | .quoted text => text.flaw
  | .plain _ => none

mutual

/-- What one who passes over a value has to say about it. -/
def Value.flaw : Value → Option Fault
  | .scalar s => s.flaw
  | .sequence items => items.flaw
  | .mapping fields => fields.flaw
  | .fault f => some f

/-- What one who passes over items has to say about them. -/
def Items.flaw : Items → Option Fault
  | .done => none
  | .broken f => some f
  | .item value rest => value.flaw.or rest.flaw

/-- What one who passes over fields has to say about them. -/
def Fields.flaw : Fields → Option Fault
  | .done => none
  | .broken f => some f
  | .noKey _ => some .malformed
  | .field key value rest => (key.flaw.or value.flaw).or rest.flaw

end

/-! ### Building and listing -/

/-- The items of a list, in front of others. -/
def Items.append (values : List Value) (rest : Items) : Items := values.foldr .item rest

/-- The fields of a list, in front of others. -/
def Fields.append (fields : List (QuotedText × Value)) (rest : Fields) : Fields :=
  fields.foldr (fun f rest => .field f.1 f.2 rest) rest

namespace Value

/-- A quoted text without faults. -/
def string (s : String) : Value := .scalar (.quoted (.ofString s))

/-- The word for no value. -/
def null : Value := .scalar (.word .null none)

/-- The word for a truth value. -/
def bool (b : Bool) : Value := .scalar (.word (.bool b) none)

/-- An integer. -/
def int (i : Int) : Value :=
  .scalar (.number (.ok (if 0 ≤ i then .natural i.toNat else .negative i)))

/-- A sequence without faults. -/
def list (values : List Value) : Value := .sequence (.append values .done)

/-- A mapping without faults. -/
def object (fields : List (String × Value)) : Value :=
  .mapping (.append (fields.map fun f => (.ofString f.1, f.2)) .done)

end Value

end TreeCompiler
