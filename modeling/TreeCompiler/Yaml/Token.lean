import TreeCompiler.Document.Value
import TreeCompiler.Yaml.Character

/-!
# The tokens of a YAML text

A YAML text is read character by character. A `Mode` tells where the scan stands: between tokens,
or inside a comment or a text. The containers that are shown by their columns get tokens for their
starts and ends; the columns of those that are open lie on a stack, and a token further to the left
ends them.

A text or a container in brackets may turn out to be a key when a colon follows it on its line.
`Candidate` remembers the place where its token went, and the colon puts the token for a key there.

The format is limited to containers, texts, comments and marks between documents. Anchors, aliases,
tags, directives, and texts that are kept line by line are refused.
-/

namespace TreeCompiler.Yaml

/-- A token of a YAML text. -/
inductive Token where
  /-- The start of a sequence of entries in a column. -/
  | sequenceStart
  /-- The start of a mapping of keys in a column. -/
  | mappingStart
  /-- The end of a container in a column. -/
  | blockEnd
  | entry
  | key
  | value
  | flowSequenceStart
  | flowSequenceEnd
  | flowMappingStart
  | flowMappingEnd
  | comma
  | scalar (scalar : Scalar)
  | document (mark : DocumentMark)

/-- Where a text in quotation marks stands. -/
inductive QuotedPhase where
  | text
  /-- At the second of two apostrophes, which stand for one. -/
  | doubled
  /-- Behind a backslash. -/
  | escape
  /-- Behind a backslash at the end of a line. -/
  | joinLine
  /-- Before so many digits of an escape, behind digits of a value. -/
  | hex (left value : Nat)
deriving DecidableEq, Inhabited

/-- Where the scan stands. The characters of a text are listed backward. -/
inductive Mode where
  | between
  | comment
  /-- Inside a mark between documents, of which so many characters are left. -/
  | mark (left : Nat)
  | plain (text : List Char) (white : White)
  | quoted (delimiter : Char) (phase : QuotedPhase) (text : List Char) (white : White)
deriving DecidableEq, Inhabited

/-- What may turn out to be a key. -/
structure Candidate where
  line : Nat
  column : Nat
  offset : Nat
  /-- The number of tokens before it. -/
  place : Nat
  /-- Whether it stands in brackets where only a key may stand: in the column of the container
  around the brackets. -/
  isRequired : Bool
deriving DecidableEq, Inhabited

/-- The state of the scan. -/
structure Scan where
  mode : Mode := .between
  /-- The tokens so far, backward. -/
  tokens : List Token := []
  /-- The columns of the open containers, innermost first. -/
  columns : List Nat := []
  /-- What may turn out to be a key, within the innermost brackets. -/
  candidate : Option Candidate := none
  /-- The same outside of each pair of brackets, innermost first. -/
  outer : List (Option Candidate) := []
  /-- Whether a key without a mark of its own may start here. -/
  keyAllowed : Bool := true
  /-- Where a colon may have its value right behind it. -/
  tightColon : Option Nat := none

/-- The longest distance between the start of a key and its colon. -/
def keyLength : Nat := 1024

/-- How deep brackets may nest. -/
def flowLimit : Nat := 255

namespace Scan

/-- Whether the scan is inside of brackets. -/
def inFlow (s : Scan) : Bool := !s.outer.isEmpty

/-- Adds a token. -/
def emit (s : Scan) (t : Token) : Scan := { s with tokens := t :: s.tokens }

/-- Ends the containers in columns to the right of one. -/
def closeBeyond (s : Scan) (column : Nat) : Scan :=
  if s.inFlow then s
  else
    let closed := s.columns.takeWhile (· > column)
    { s with
      tokens := List.replicate closed.length .blockEnd ++ s.tokens
      columns := s.columns.drop closed.length }

/-- Ends all containers in columns. -/
def closeAll (s : Scan) : Scan :=
  if s.inFlow then s
  else
    { s with
      tokens := List.replicate s.columns.length .blockEnd ++ s.tokens
      columns := [] }

/-- Whether a container that starts in a column is inside of those that are open. -/
def opensAt (s : Scan) (column : Nat) : Bool :=
  !s.inFlow && s.columns.head?.all (· < column)

/-- Starts a container in a column, if the column is further to the right than those of the open
containers. -/
def openAt (s : Scan) (column : Nat) (t : Token) : Scan :=
  if s.opensAt column then { s.emit t with columns := column :: s.columns } else s

/-! ### Candidates for keys -/

/-- Gives up what might have been a key, which must not have been required to be one. -/
def dropCandidate (s : Scan) : Except Fault Scan :=
  if s.candidate.any (·.isRequired) then .error .malformed
  else .ok { s with candidate := none }

/-- Gives up what might have been a key on another line, or too far before. -/
def dropStale (s : Scan) (c : Placed) : Except Fault Scan :=
  match s.candidate with
  | some k => if k.line < c.line ∨ k.offset + keyLength < c.offset then s.dropCandidate else .ok s
  | none => .ok s

/-- Remembers that a key may start here. -/
def saveCandidate (s : Scan) (c : Placed) : Except Fault Scan :=
  if s.keyAllowed then do
    let s ← s.dropCandidate
    return { s with
      candidate := some
        { line := c.line
          column := c.column
          offset := c.offset
          place := s.tokens.length
          isRequired := s.inFlow && s.columns.head? = some c.column } }
  else return s

/-- Makes a candidate a key, and starts a mapping there if it is the first key in its column. -/
def promote (s : Scan) (k : Candidate) : Scan :=
  let behind := s.tokens.take (s.tokens.length - k.place)
  let before := s.tokens.drop (s.tokens.length - k.place)
  let opened := { s with tokens := before }.openAt k.column .mappingStart
  { opened with tokens := behind ++ .key :: opened.tokens, candidate := none, keyAllowed := false }

/-! ### Starts of tokens -/

/-- A bracket that opens. -/
def openFlow (s : Scan) (c : Placed) (t : Token) : Except Fault Scan := do
  let s ← s.saveCandidate c
  if s.outer.length ≥ flowLimit then throw .malformed
  return { s with candidate := none, outer := s.candidate :: s.outer, keyAllowed := true }.emit t

/-- A bracket that closes. -/
def closeFlow (s : Scan) (t : Token) : Except Fault Scan := do
  let s ← s.dropCandidate
  let s :=
    match s.outer with
    | candidate :: outer => { s with candidate, outer }
    | [] => s
  return { s with keyAllowed := false }.emit t

/-- A comma. -/
def comma (s : Scan) : Except Fault Scan := do
  let s ← s.dropCandidate
  return { s with keyAllowed := true }.emit .comma

/-- The hyphen of an entry, which must be the first on its line or follow another indicator. -/
def entry (s : Scan) (c : Placed) : Except Fault Scan := do
  if s.inFlow ∨ ¬s.keyAllowed then throw .malformed
  let s ← (s.openAt c.column .sequenceStart).dropCandidate
  return { s with keyAllowed := true }.emit .entry

/-- The question mark of a key. -/
def key (s : Scan) (c : Placed) : Except Fault Scan := do
  if ¬s.inFlow ∧ ¬s.keyAllowed then throw .malformed
  let s ← (s.openAt c.column .mappingStart).dropCandidate
  return { s with keyAllowed := !s.inFlow }.emit .key

/-- The colon of a value. -/
def value (s : Scan) (c : Placed) : Except Fault Scan := do
  match s.candidate with
  | some k => return (s.promote k).emit .value
  | none =>
    if ¬s.inFlow ∧ ¬s.keyAllowed then throw .malformed
    return { s.openAt c.column .mappingStart with keyAllowed := !s.inFlow }.emit .value

/-- A mark between documents. -/
def documentMark (s : Scan) (mark : DocumentMark) : Except Fault Scan := do
  let s ← s.closeAll.dropCandidate
  return { s with keyAllowed := false, mode := .mark 2 }.emit (.document mark)

/-- A text in quotation marks. -/
def startQuoted (s : Scan) (c : Placed) : Except Fault Scan := do
  let s ← s.saveCandidate c
  return { s with keyAllowed := false, mode := .quoted c.char .text [] {} }

/-- A text without quotation marks. -/
def startPlain (s : Scan) (c : Placed) : Except Fault Scan := do
  let s ← s.saveCandidate c
  let mode : Mode :=
    if isBlank c.char then .plain [] (White.addBlank {} c.char) else .plain [c.char] {}
  return { s with keyAllowed := false, mode }

/-- Whether a colon is that of a value. -/
def isValueColon (s : Scan) (c : Placed) : Bool :=
  endsWord c.next || s.inFlow && (c.next.any isFlowMark || s.tightColon = some c.offset)

/-- Reads the first character of a token. -/
def startToken (s : Scan) (c : Placed) : Except Fault Scan := do
  let s := (← s.dropStale c).closeBeyond c.column
  match c.mark with
  | some mark => s.documentMark mark
  | none =>
    match c.char with
    | '[' => s.openFlow c .flowSequenceStart
    | '{' => s.openFlow c .flowMappingStart
    | ']' => s.closeFlow .flowSequenceEnd
    | '}' => s.closeFlow .flowMappingEnd
    | ',' => s.comma
    | '-' => if endsWord c.next then s.entry c else s.startPlain c
    | '?' => if endsWord c.next then s.key c else s.startPlain c
    | ':' => if s.isValueColon c then s.value c else s.startPlain c
    | '\'' | '"' => s.startQuoted c
    | '|' | '>' => if s.inFlow then s.startPlain c else throw .malformed
    | '*' | '&' | '!' | '%' | '@' | '\x60' => throw .malformed
    | _ => s.startPlain c

/-- Reads a character between tokens. The end of a line allows a key behind it. -/
def between (s : Scan) (c : Placed) : Except Fault Scan :=
  if c.char = ' ' ∨ c.char = '\t' ∧ (s.inFlow ∨ ¬s.keyAllowed) then .ok s
  else if isBreak c.char then .ok { s with keyAllowed := s.keyAllowed || !s.inFlow }
  else if c.char = '#' then .ok { s with mode := .comment }
  else s.startToken c

/-! ### Texts without quotation marks -/

/-- The first column in which a text may go on. -/
def margin (s : Scan) : Nat :=
  match s.columns with
  | column :: _ => column + 1
  | [] => 0

/-- Whether a text without quotation marks ends before a character. -/
def endsPlain (s : Scan) (white : White) (c : Placed) : Bool :=
  (!white.isEmpty && (c.mark.isSome || c.char = '#' || !s.inFlow && c.column < s.margin)) ||
    c.char = ':' && (endsWord c.next || s.inFlow && c.next.any isFlowMark) ||
    s.inFlow && (c.char = ',' || c.char = '[' || c.char = ']' || c.char = '{' || c.char = '}')

/-- Ends a text without quotation marks. -/
def finishPlain (s : Scan) (text : List Char) (white : White) : Scan :=
  { s with mode := .between, keyAllowed := white.isBroken }.emit
    (.scalar (.plain (String.ofList text.reverse)))

/-- Reads a character of a text without quotation marks, or the one behind it. -/
def plain (s : Scan) (text : List Char) (white : White) (c : Placed) : Except Fault Scan :=
  if isBlank c.char then
    if white.isBroken ∧ c.char = '\t' ∧ c.column < s.margin then .error .malformed
    else .ok { s with mode := .plain text (white.addBlank c.char) }
  else if isBreak c.char then .ok { s with mode := .plain text white.addBreak }
  else if s.endsPlain white c then (s.finishPlain text white).between c
  else .ok { s with mode := .plain (c.char :: (white.folded ++ text)) {} }

/-! ### Texts in quotation marks -/

/-- What a letter behind a backslash stands for. -/
def escaped? (c : Char) : Option Char :=
  match c with
  | '0' => some '\x00'
  | 'a' => some '\x07'
  | 'b' => some '\x08'
  | 't' | '\t' => some '\t'
  | 'n' => some '\n'
  | 'v' => some '\x0b'
  | 'f' => some '\x0c'
  | 'r' => some '\r'
  | 'e' => some '\x1b'
  | ' ' | '"' | '\'' | '\\' => some c
  | 'N' => some '\u0085'
  | '_' => some '\u00a0'
  | 'L' => some '\u2028'
  | 'P' => some '\u2029'
  | _ => none

/-- The number of hexadecimal digits behind a letter behind a backslash. -/
def escapeLength? (c : Char) : Option Nat :=
  match c with
  | 'x' => some 2
  | 'u' => some 4
  | 'U' => some 8
  | _ => none

/-- The value of a hexadecimal digit. -/
def hexDigit? (c : Char) : Option Nat :=
  if '0' ≤ c ∧ c ≤ '9' then some (c.toNat - '0'.toNat)
  else if 'a' ≤ c ∧ c ≤ 'f' then some (c.toNat - 'a'.toNat + 10)
  else if 'A' ≤ c ∧ c ≤ 'F' then some (c.toNat - 'A'.toNat + 10)
  else none

/-- The character of a code. -/
def charOfCode? (code : Nat) : Option Char :=
  if code.isValidChar then some (Char.ofNat code) else none

/-- Ends a text in quotation marks. -/
def finishQuoted (s : Scan) (text : List Char) (c : Placed) : Scan :=
  { s with mode := .between, tightColon := some (c.offset + 1) }.emit
    (.scalar (.quoted (.ofString (String.ofList text.reverse))))

/-- Reads a character of a text in quotation marks that is not behind a backslash. -/
def quotedText (s : Scan) (delimiter : Char) (text : List Char) (white : White) (c : Placed) :
    Except Fault Scan :=
  if c.mark.isSome then .error .malformed
  else if isBlank c.char then
    .ok { s with mode := .quoted delimiter .text text (white.addBlank c.char) }
  else if isBreak c.char then .ok { s with mode := .quoted delimiter .text text white.addBreak }
  else
    let text := white.folded ++ text
    let goOn (phase : QuotedPhase) (text : List Char) : Except Fault Scan :=
      .ok { s with mode := .quoted delimiter phase text {} }
    if c.char = delimiter then
      if delimiter = '\'' ∧ c.next = some '\'' then goOn .doubled text
      else .ok (s.finishQuoted text c)
    else if c.char = '\\' ∧ delimiter = '"' then
      if c.next.any isBreak then goOn .joinLine text else goOn .escape text
    else goOn .text (c.char :: text)

/-- Reads a character of a text in quotation marks. -/
def quoted (s : Scan) (delimiter : Char) (phase : QuotedPhase) (text : List Char) (white : White)
    (c : Placed) : Except Fault Scan :=
  let goOn (phase : QuotedPhase) (text : List Char) (white : White) : Except Fault Scan :=
    .ok { s with mode := .quoted delimiter phase text white }
  match phase with
  | .text => s.quotedText delimiter text white c
  | .doubled => goOn .text ('\'' :: text) {}
  | .joinLine => goOn .text text { joined := true }
  | .escape =>
    match escaped? c.char, escapeLength? c.char with
    | some e, _ => goOn .text (e :: text) {}
    | none, some length => goOn (.hex length 0) text {}
    | none, none => .error .malformed
  | .hex left value =>
    match hexDigit? c.char with
    | none => .error .malformed
    | some d =>
      let value := 16 * value + d
      if left > 1 then goOn (.hex (left - 1) value) text {}
      else
        match charOfCode? value with
        | some e => goOn .text (e :: text) {}
        | none => .error .malformed

/-! ### The scan -/

/-- Reads a character. -/
def step (s : Scan) (c : Placed) : Except Fault Scan :=
  match s.mode with
  | .between => s.between c
  | .comment => if isBreak c.char then { s with mode := .between }.between c else .ok s
  | .mark left => .ok { s with mode := if left > 1 then .mark (left - 1) else .between }
  | .plain text white => s.plain text white c
  | .quoted delimiter phase text white => s.quoted delimiter phase text white c

/-- Ends the text, which must not end inside of quotation marks. -/
def finish (s : Scan) : Except Fault Scan :=
  match s.mode with
  | .between | .comment | .mark _ => .ok s.closeAll
  | .plain text white => .ok (s.finishPlain text white).closeAll
  | .quoted _ _ _ _ => .error .cut

end Scan

/-- The tokens of a text. -/
def tokens (text : List Char) : Except Fault (List Token) := do
  let s ← (place text).foldlM Scan.step {}
  return (← s.finish).tokens.reverse

end TreeCompiler.Yaml
