import TreeCompiler.Yaml.Token

/-!
# YAML texts

The tokens of a text are put together to a tree. A `Place` tells what may come next; the containers
that are still open lie on a stack. Where a container goes on or ends in the place of a node, the
node is empty.

Nothing is known of a text that has a fault anywhere.
-/

namespace TreeCompiler.Yaml

/-- How a sequence is shown. -/
inductive SequenceStyle where
  /-- By a column. -/
  | block
  /-- By the column of the mapping that it is in. -/
  | compact
  /-- By brackets. -/
  | flow
deriving DecidableEq, Inhabited

/-- How a mapping is shown. -/
inductive MappingStyle where
  /-- By a column. -/
  | block
  /-- By brackets. -/
  | flow
  /-- By a single key in a sequence in brackets. -/
  | single
deriving DecidableEq, Inhabited

/-- A field of a mapping. -/
abbrev FieldPair : Type := QuotedText × Value

/-- A container that is still open, with its parts listed backward. -/
inductive OpenContainer where
  | sequence (style : SequenceStyle) (items : List Value)
  /-- A mapping between two fields. -/
  | mapping (style : MappingStyle) (fields : List FieldPair)
  /-- A mapping that waits for a key; a key in brackets that has no mark has no value either. -/
  | key (style : MappingStyle) (isBare : Bool) (fields : List FieldPair)
  /-- A mapping in which a key waits for its value. -/
  | member (style : MappingStyle) (fields : List FieldPair) (key : QuotedText)

/-- What may come next. -/
inductive Place where
  /-- A node, or the mark in front of the document. -/
  | start
  /-- A node. -/
  | node
  /-- A part of a container in brackets, or its end. -/
  | flowPart
  /-- What follows a part of a container, or starts one in a column. -/
  | behindPart
  /-- The colon behind a key. -/
  | colon
  /-- The end of the text. -/
  | done (root : Value)

/-- How far the tree is: what may come next inside which containers. -/
structure Progress where
  place : Place
  stack : List OpenContainer

namespace Progress

/-- The node where nothing is written. -/
def omitted : Value := .scalar (.plain "~")

/-- A node as the key of a field. A container is no key that a reader could use. -/
def fieldKey : Value → QuotedText
  | .scalar (.plain text) => .ofString text
  | .scalar (.quoted text) => text
  | _ => ⟨.error .malformed, none⟩

/-- Puts a complete node where it belongs. -/
def put (value : Value) : List OpenContainer → Progress
  | [] => ⟨.done value, []⟩
  | .sequence style items :: rest => ⟨.behindPart, .sequence style (value :: items) :: rest⟩
  | .key style true fields :: rest =>
    ⟨.behindPart, .mapping style ((fieldKey value, omitted) :: fields) :: rest⟩
  | .key style false fields :: rest => ⟨.colon, .member style fields (fieldKey value) :: rest⟩
  | .member .single fields key :: .sequence style items :: rest =>
    let pair : Value := .mapping (.append ((key, value) :: fields).reverse .done)
    ⟨.behindPart, .sequence style (pair :: items) :: rest⟩
  | .member style fields key :: rest =>
    ⟨.behindPart, .mapping style ((key, value) :: fields) :: rest⟩
  | .mapping style fields :: rest => ⟨.behindPart, .mapping style fields :: rest⟩

/-- Puts a complete sequence where it belongs. -/
def putSequence (items : List Value) (stack : List OpenContainer) : Progress :=
  put (.sequence (.append items.reverse .done)) stack

/-- Puts a complete mapping where it belongs. -/
def putMapping (fields : List FieldPair) (stack : List OpenContainer) : Progress :=
  put (.mapping (.append fields.reverse .done)) stack

/-- Takes a node where one may come; there is no result if the token starts none. -/
def startNode? (token : Token) (stack : List OpenContainer) : Option Progress :=
  match token, stack with
  | .scalar s, _ => some (put (.scalar s) stack)
  | .sequenceStart, _ => some ⟨.behindPart, .sequence .block [] :: stack⟩
  | .mappingStart, _ => some ⟨.behindPart, .mapping .block [] :: stack⟩
  | .flowSequenceStart, _ => some ⟨.flowPart, .sequence .flow [] :: stack⟩
  | .flowMappingStart, _ => some ⟨.flowPart, .mapping .flow [] :: stack⟩
  | .entry, .key .block _ _ :: _ | .entry, .member .block _ _ :: _ =>
    some ⟨.node, .sequence .compact [] :: stack⟩
  | _, _ => none

/-- Takes a node, which must come. -/
def startNode (token : Token) (stack : List OpenContainer) : Except Fault Progress :=
  match startNode? token stack with
  | some p => .ok p
  | none => .error .malformed

/-- Takes a part of a container in brackets, or its end. -/
def startFlowPart (token : Token) : List OpenContainer → Except Fault Progress
  | .sequence .flow items :: rest =>
    match token with
    | .flowSequenceEnd => .ok (putSequence items rest)
    | .key => .ok ⟨.node, .key .single false [] :: .sequence .flow items :: rest⟩
    | _ => startNode token (.sequence .flow items :: rest)
  | .mapping .flow fields :: rest =>
    match token with
    | .flowMappingEnd => .ok (putMapping fields rest)
    | .key => .ok ⟨.node, .key .flow false fields :: rest⟩
    | .value => .ok ⟨.node, .member .flow fields (fieldKey omitted) :: rest⟩
    | _ => startNode token (.key .flow true fields :: rest)
  | _ => .error .malformed

/-- Takes what may come between two parts of a container. -/
def betweenParts (token : Token) : List OpenContainer → Except Fault Progress
  | .sequence .block items :: rest =>
    match token with
    | .entry => .ok ⟨.node, .sequence .block items :: rest⟩
    | .blockEnd => .ok (putSequence items rest)
    | _ => .error .malformed
  | .mapping .block fields :: rest =>
    match token with
    | .key => .ok ⟨.node, .key .block false fields :: rest⟩
    | .value => .ok ⟨.node, .member .block fields (fieldKey omitted) :: rest⟩
    | .blockEnd => .ok (putMapping fields rest)
    | _ => .error .malformed
  | .sequence .flow items :: rest =>
    match token with
    | .comma => .ok ⟨.flowPart, .sequence .flow items :: rest⟩
    | .flowSequenceEnd => .ok (putSequence items rest)
    | _ => .error .malformed
  | .mapping .flow fields :: rest =>
    match token with
    | .comma => .ok ⟨.flowPart, .mapping .flow fields :: rest⟩
    | .flowMappingEnd => .ok (putMapping fields rest)
    | _ => .error .malformed
  | _ => .error .malformed

/-- Takes the colon behind a key, or what comes in its place behind a key without a value. -/
def behindKey (token : Token) (p : Progress) : Except Fault Progress :=
  match p.place, token with
  | .colon, .value => .ok ⟨.node, p.stack⟩
  | .colon, _ => betweenParts token (put omitted p.stack).stack
  | _, _ => betweenParts token p.stack

/-- Takes what may come behind a node. A sequence without a column of its own ends where no entry
follows. -/
def behindNode (token : Token) (p : Progress) : Except Fault Progress :=
  match p.stack, token with
  | .sequence .compact items :: rest, .entry => .ok ⟨.node, .sequence .compact items :: rest⟩
  | .sequence .compact items :: rest, _ => behindKey token (putSequence items rest)
  | _, _ => behindKey token p

/-- Reads a token. -/
def step (p : Progress) (token : Token) : Except Fault Progress :=
  match p.place, token with
  | .start, .document .start => .ok ⟨.node, []⟩
  | .start, _ => startNode token []
  | .node, _ =>
    match startNode? token p.stack, p.stack with
    | some p, _ => .ok p
    | none, [] => .error .malformed
    | none, stack => behindNode token (put omitted stack)
  | .flowPart, _ => startFlowPart token p.stack
  | .behindPart, _ | .colon, _ => behindNode token p
  | .done root, .document .stop => .ok ⟨.done root, []⟩
  | .done _, _ => .error .malformed

/-- Ends the text. -/
def finish (p : Progress) : Except Fault Value :=
  match p.place with
  | .done root => .ok root
  | _ => .error .cut

end Progress

/-- The tree of a text of characters. -/
def parseText (text : List Char) : Except Fault Value := do
  let p ← (← tokens text).foldlM Progress.step ⟨.start, []⟩
  p.finish

/-- What a YAML text says. -/
def parse (bytes : List UInt8) : Document :=
  match String.fromUTF8? ⟨bytes.toArray⟩ with
  | none => ⟨.fault .malformed, false⟩
  | some text =>
    match parseText text.toList with
    | .ok root => ⟨root, false⟩
    | .error f => ⟨.fault f, false⟩

end TreeCompiler.Yaml
