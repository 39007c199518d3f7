import TreeCompiler.Json.Token

/-!
# JSON texts

The tokens of a text are put together to a tree. A `Place` tells what may come next; the containers
that are still open lie on a stack. A token that must not come, or the end of the text, leaves a
fault in its place, and the tree ends there.

A faulty key behind a comma is a field with a faulty key, so that a reader who expects the end of
the mapping sees that there is more.
-/

namespace TreeCompiler.Json

/-- A container that is still open, with its parts listed backward. -/
inductive OpenContainer where
  | sequence (items : List Value)
  /-- A mapping between two fields. -/
  | mapping (fields : List (QuotedText × Value))
  /-- A mapping in which a key waits for its value. -/
  | member (fields : List (QuotedText × Value)) (key : QuotedText)

/-- What may come next. -/
inductive Place where
  | value
  | firstItem
  | nextItem
  | firstKey
  | key
  | colon (key : QuotedText)
  | nextField
  | behind (root : Value)

/-- How far the tree is: what may come next inside which containers, or the whole document. -/
inductive Progress where
  | inside (place : Place) (stack : List OpenContainer)
  | complete (document : Document)

/-! ### Values and ends -/

/-- The container with a fault behind its last part; a key that waits gets the fault as its
value. -/
def OpenContainer.breakOff (fault : Fault) : OpenContainer → Value
  | .sequence items => .sequence (.append items.reverse (.broken fault))
  | .mapping fields => .mapping (.append fields.reverse (.broken fault))
  | .member fields key => .mapping (.append fields.reverse (.field key (.fault fault) .done))

/-- The container with its last value in it, and nothing behind that. -/
def OpenContainer.endWith (value : Value) : OpenContainer → Value
  | .sequence items => .sequence (.append items.reverse (.item value .done))
  | .mapping fields => .mapping (.append fields.reverse .done)
  | .member fields key => .mapping (.append fields.reverse (.field key value .done))

/-- The document that ends with a value inside of containers. -/
def endDocument (value : Value) (stack : List OpenContainer) : Document :=
  ⟨stack.foldl (fun value container => container.endWith value) value, false⟩

/-- The document that ends with a fault in the place of what may come next. -/
def breakDocument (fault : Fault) : Place → List OpenContainer → Document
  | .behind root, _ => ⟨root, true⟩
  | .value, stack => endDocument (.fault fault) stack
  | .key, .mapping fields :: stack =>
    endDocument
      (.mapping (.append fields.reverse (.field ⟨.error fault, some fault⟩ (.fault fault) .done)))
      stack
  | .colon key, .mapping fields :: stack =>
    endDocument (.mapping (.append fields.reverse (.field key (.fault fault) .done))) stack
  | _, container :: stack => endDocument (container.breakOff fault) stack
  | _, [] => ⟨.fault fault, false⟩

/-- Puts a complete value where it belongs. -/
def putValue (value : Value) : List OpenContainer → Progress
  | .sequence items :: stack => .inside .nextItem (.sequence (value :: items) :: stack)
  | .member fields key :: stack => .inside .nextField (.mapping ((key, value) :: fields) :: stack)
  | stack => .inside (.behind value) stack

/-- Puts a scalar where it belongs; one with a flaw ends the document. -/
def putScalar (scalar : Scalar) (stack : List OpenContainer) : Progress :=
  if scalar.flaw.isSome then .complete (endDocument (.scalar scalar) stack)
  else putValue (.scalar scalar) stack

/-- Takes a value where one may come. -/
def startValue (token : Token) (stack : List OpenContainer) : Progress :=
  match token with
  | .scalar s => putScalar s stack
  | .sequenceStart => .inside .firstItem (.sequence [] :: stack)
  | .mappingStart => .inside .firstKey (.mapping [] :: stack)
  | _ => .complete (breakDocument .malformed .value stack)

/-- Takes a key of a mapping; one with a flaw ends the document. -/
def takeKey (key : QuotedText) (stack : List OpenContainer) : Progress :=
  match key.flaw, stack with
  | none, _ => .inside (.colon key) stack
  | some fault, .mapping fields :: stack =>
    .complete
      (endDocument (.mapping (.append fields.reverse (.field key (.fault fault) .done))) stack)
  | some fault, _ => .complete (breakDocument fault .key stack)

/-- A mapping with something else in the place of its first key. -/
def noKey (token : Token) (stack : List OpenContainer) : Progress :=
  let found : Value :=
    match token with
    | .scalar s => .scalar s
    | .sequenceStart => .sequence .done
    | .mappingStart => .mapping .done
    | _ => .fault .malformed
  .complete (endDocument (.mapping (.noKey found)) stack.tail)

/-! ### Reading tokens -/

/-- Reads a token. -/
def Progress.step : Progress → Token → Progress
  | .complete document, _ => .complete document
  | .inside place stack, token =>
    match place, token, stack with
    | .value, _, _ => startValue token stack
    | .firstItem, .sequenceEnd, .sequence items :: rest =>
      putValue (.sequence (.append items.reverse .done)) rest
    | .firstItem, _, _ => startValue token stack
    | .nextItem, .comma, _ => .inside .value stack
    | .nextItem, .sequenceEnd, .sequence items :: rest =>
      putValue (.sequence (.append items.reverse .done)) rest
    | .firstKey, .mappingEnd, .mapping fields :: rest =>
      putValue (.mapping (.append fields.reverse .done)) rest
    | .firstKey, .scalar (.quoted key), _ => takeKey key stack
    | .firstKey, _, _ => noKey token stack
    | .key, .scalar (.quoted key), _ => takeKey key stack
    | .colon key, .colon, .mapping fields :: rest => .inside .value (.member fields key :: rest)
    | .nextField, .comma, _ => .inside .key stack
    | .nextField, .mappingEnd, .mapping fields :: rest =>
      putValue (.mapping (.append fields.reverse .done)) rest
    | place, _, stack => .complete (breakDocument .malformed place stack)

/-- Ends the text. -/
def Progress.finish : Progress → Document
  | .complete document => document
  | .inside (.behind root) _ => ⟨root, false⟩
  | .inside place stack => breakDocument .cut place stack

/-- What a JSON text says. -/
def parse (bytes : List UInt8) : Document :=
  ((tokens bytes).foldl Progress.step (.inside .value [])).finish

end TreeCompiler.Json
