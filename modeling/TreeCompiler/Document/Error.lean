import TreeCompiler.Decimal.Shortest
import TreeCompiler.Document.Value
import TreeCompiler.Text

/-!
# Faults in the content of a document

A document that is well formed can still be something else than what its reader expects. The
message tells what was found and what was expected.
-/

namespace TreeCompiler

/-- What was found instead of what was expected. -/
inductive Unexpected where
  | null
  | bool (value : Bool)
  | integer (value : Int)
  | float (negative : Bool) (magnitude : Decimal.Binary64)
  | string (text : String)
  | sequence
  | mapping
  /-- A bare name where a name with content is expected. -/
  | unitVariant
deriving DecidableEq, Inhabited

/-- How a message names what was found. -/
def Unexpected.text : Unexpected → String
  | .null => "null"
  | .bool value => "boolean `" ++ (if value then "true" else "false") ++ "`"
  | .integer value => "integer `" ++ toString value ++ "`"
  | .float negative magnitude =>
    "floating point `" ++ (if negative then "-" else "") ++ magnitude.shortest.positional ++
      "`"
  | .string text => "string " ++ Text.quoted text
  | .sequence => "sequence"
  | .mapping => "map"
  | .unitVariant => "unit variant"

/-- Why the content of a document is refused. -/
inductive ContentError where
  | missingField (name : String)
  | duplicateField (name : String)
  | unknownVariant (name : String) (expected : List String)
  | invalidLength (length : Nat) (expected : String)
  | invalidType (found : Unexpected) (expected : String)
  | invalidValue (found : Unexpected) (expected : String)
deriving DecidableEq, Inhabited

namespace ContentError

/-- A name between backquotes. -/
def tick (name : String) : String := "`" ++ name ++ "`"

/-- A choice of names. -/
def oneOf : List String → String
  | [a] => tick a
  | [a, b] => tick a ++ " or " ++ tick b
  | names => "one of " ++ ", ".intercalate (names.map tick)

/-- The message of each error. -/
def message : ContentError → String
  | missingField name => "missing field " ++ tick name
  | duplicateField name => "duplicate field " ++ tick name
  | unknownVariant name expected =>
    "unknown variant " ++ tick name ++ ", expected " ++ oneOf expected
  | invalidLength length expected =>
    "invalid length " ++ toString length ++ ", expected " ++ expected
  | invalidType found expected => "invalid type: " ++ found.text ++ ", expected " ++ expected
  | invalidValue found expected => "invalid value: " ++ found.text ++ ", expected " ++ expected

end ContentError

/-- Why a document cannot be read: for its text or for its content. -/
inductive ReadError where
  | fault (fault : Fault)
  | content (error : ContentError)
deriving DecidableEq, Inhabited

/-- What a reader finds in the place of what it expects. A faulty value has no kind. -/
def Value.unexpected : Value → Except ReadError Unexpected
  | .scalar (.word w flaw) =>
    match flaw, w with
    | some f, _ => .error (.fault f)
    | none, .null => .ok .null
    | none, .bool b => .ok (.bool b)
  | .scalar (.number (.ok (.natural n))) => .ok (.integer n)
  | .scalar (.number (.ok (.negative i))) => .ok (.integer i)
  | .scalar (.number (.ok (.float negative magnitude))) => .ok (.float negative magnitude)
  | .scalar (.number (.error f)) => .error (.fault f.fault)
  | .scalar (.quoted text) => (text.content.map .string).mapError .fault
  | .scalar (.plain text) => .ok (.string text)
  | .sequence _ => .ok .sequence
  | .mapping _ => .ok .mapping
  | .fault f => .error (.fault f)

end TreeCompiler
