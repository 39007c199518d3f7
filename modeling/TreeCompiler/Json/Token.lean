import TreeCompiler.Json.Number

/-!
# The tokens of a JSON text

A JSON text is read byte by byte. A `Mode` tells where the scan stands: between tokens, or inside a
word, a number or a quoted text. Each byte takes the scan to another mode and may complete tokens;
the end of the text completes a number and cuts off everything else. The scan is over at the first
fault that even one who passes over the value has to see.
-/

namespace TreeCompiler.Json

/-- A token of a JSON text. -/
inductive Token where
  | sequenceStart
  | sequenceEnd
  | mappingStart
  | mappingEnd
  | comma
  | colon
  | scalar (scalar : Scalar)
  /-- A byte that starts no token. -/
  | junk

/-! ### Bytes -/

/-- The byte of an ASCII character. -/
def ascii (c : Char) : UInt8 := UInt8.ofNat c.toNat

/-- Whether a byte is white space between tokens. -/
def isBlank (b : UInt8) : Bool :=
  b = ascii ' ' || b = ascii '\n' || b = ascii '\t' || b = ascii '\r'

/-- The value of a decimal digit. -/
def digit? (b : UInt8) : Option Nat :=
  if ascii '0' ≤ b ∧ b ≤ ascii '9' then some (b - ascii '0').toNat else none

/-- The value of a hexadecimal digit. -/
def hexDigit? (b : UInt8) : Option Nat :=
  if ascii '0' ≤ b ∧ b ≤ ascii '9' then some (b - ascii '0').toNat
  else if ascii 'a' ≤ b ∧ b ≤ ascii 'f' then some ((b - ascii 'a').toNat + 10)
  else if ascii 'A' ≤ b ∧ b ≤ ascii 'F' then some ((b - ascii 'A').toNat + 10)
  else none

/-- The value of hexadecimal digits, the first one the most significant. -/
def hexValue? (digits : List UInt8) : Option Nat :=
  digits.foldlM (fun n b => (hexDigit? b).map (16 * n + ·)) 0

/-- What a letter behind a backslash stands for; `u` is another matter. -/
def escapedByte? (b : UInt8) : Option UInt8 :=
  if b = ascii '"' ∨ b = ascii '\\' ∨ b = ascii '/' then some b
  else if b = ascii 'b' then some 8
  else if b = ascii 'f' then some 12
  else if b = ascii 'n' then some 10
  else if b = ascii 'r' then some 13
  else if b = ascii 't' then some 9
  else none

/-! ### Modes -/

/-- Where a number stands. -/
inductive NumberPhase where
  | sign | zero | whole | point | fraction | mark | markSign | power
deriving DecidableEq, Inhabited

/-- Where a quoted text stands: among its characters, behind a backslash, or among the four digits
of an escape, of which those already read are listed backward. -/
inductive QuotedPhase where
  | text | escape | hex (digits : List UInt8)
deriving DecidableEq, Inhabited

/-- What is already read of a quoted text. -/
structure QuotedScan where
  /-- The bytes of the content, backward. -/
  bytes : List UInt8 := []
  /-- The first half of a surrogate pair that waits for the second one. -/
  lead : Option Nat := none
  /-- Whether there was half a surrogate pair. -/
  unpaired : Bool := false
deriving DecidableEq, Inhabited

/-- Where the scan stands. Digits of a number are listed backward. -/
inductive Mode where
  | between
  | word (word : Word) (expected : List UInt8)
  | number (phase : NumberPhase) (text : NumberText)
  | quoted (phase : QuotedPhase) (scan : QuotedScan)
  | over
deriving DecidableEq, Inhabited

/-! ### Quoted texts -/

namespace QuotedScan

/-- The scan behind something that is no second half of a surrogate pair. -/
def settle (q : QuotedScan) : QuotedScan :=
  { q with unpaired := q.unpaired || q.lead.isSome, lead := none }

/-- Adds a byte of the content. -/
def addByte (q : QuotedScan) (b : UInt8) : QuotedScan :=
  let q := q.settle
  { q with bytes := b :: q.bytes }

/-- Adds a character. -/
def addChar (q : QuotedScan) (code : Nat) : QuotedScan :=
  { q with bytes := (String.utf8EncodeChar (Char.ofNat code)).reverse ++ q.bytes }

/-- Adds the unit of 16 bits that an escape stands for. -/
def addUnit (q : QuotedScan) (unit : Nat) : QuotedScan :=
  match q.lead with
  | some lead =>
    if 0xDC00 ≤ unit ∧ unit ≤ 0xDFFF then
      { q with lead := none }.addChar (0x10000 + (lead - 0xD800) * 0x400 + (unit - 0xDC00))
    else q.settle
  | none =>
    if 0xDC00 ≤ unit ∧ unit ≤ 0xDFFF then { q with unpaired := true }
    else if 0xD800 ≤ unit ∧ unit ≤ 0xDBFF then { q with lead := some unit }
    else q.addChar unit

/-- The content of a text that is complete: it has no halves of surrogate pairs, and its bytes are
UTF-8. -/
def content (q : QuotedScan) : Except Fault String :=
  if q.settle.unpaired then .error .malformed
  else
    match String.fromUTF8? ⟨q.bytes.reverse.toArray⟩ with
    | some s => .ok s
    | none => .error .malformed

/-- The text at its closing quotation mark. -/
def close (q : QuotedScan) : Token := .scalar (.quoted ⟨q.content, none⟩)

/-- The text at a byte that must not be there. -/
def spoilt (_ : QuotedScan) : Token := .scalar (.quoted ⟨.error .malformed, some .malformed⟩)

/-- The text at the end of the input. -/
def cut (q : QuotedScan) : Token :=
  .scalar (.quoted ⟨.error (if q.unpaired then .malformed else .cut), some .cut⟩)

end QuotedScan

/-- Reads a byte of a quoted text. -/
def stepQuoted (q : QuotedScan) : QuotedPhase → UInt8 → Mode × List Token
  | .text, b =>
    if b = ascii '"' then (.between, [q.close])
    else if b = ascii '\\' then (.quoted .escape q, [])
    else if b < 0x20 then (.over, [q.spoilt])
    else (.quoted .text (q.addByte b), [])
  | .escape, b =>
    if b = ascii 'u' then (.quoted (.hex []) q, [])
    else
      match escapedByte? b with
      | some c => (.quoted .text (q.addByte c), [])
      | none => (.over, [q.spoilt])
  | .hex digits, b =>
    if digits.length < 3 then (.quoted (.hex (b :: digits)) q, [])
    else
      match hexValue? (b :: digits).reverse with
      | some unit => (.quoted .text (q.addUnit unit), [])
      | none => (.over, [q.spoilt])

/-! ### Words and numbers -/

/-- Reads a byte of a word. -/
def stepWord (w : Word) : List UInt8 → UInt8 → Mode × List Token
  | c :: rest, b =>
    if b ≠ c then (.over, [.scalar (.word w (some .malformed))])
    else if rest.isEmpty then (.between, [.scalar (.word w none)])
    else (.word w rest, [])
  | [], _ => (.over, [.scalar (.word w (some .malformed))])

namespace NumberText

/-- Adds a digit of the whole part. -/
def addWhole (n : NumberText) (d : Nat) : NumberText := { n with whole := d :: n.whole }

/-- Adds a digit of the fraction. -/
def addFraction (n : NumberText) (d : Nat) : NumberText :=
  { n with fraction := some (d :: n.fraction.getD []) }

/-- Sets the sign of the exponent. -/
def signPower (n : NumberText) (down : Bool) : NumberText := { n with power := some (down, []) }

/-- Adds a digit of the exponent. -/
def addPower (n : NumberText) (d : Nat) : NumberText :=
  let (down, digits) := n.power.getD (false, [])
  { n with power := some (down, d :: digits) }

/-- The number with its digits in order. -/
def inOrder (n : NumberText) : NumberText :=
  { n with
    whole := n.whole.reverse
    fraction := n.fraction.map List.reverse
    power := n.power.map fun (down, digits) => (down, digits.reverse) }

/-- The number as a token. -/
def token (n : NumberText) : Token := .scalar (.number n.inOrder.value)

end NumberText

/-- Whether a number can end in a phase. -/
def NumberPhase.canEnd : NumberPhase → Bool
  | .zero | .whole | .fraction | .power => true
  | .sign | .point | .mark | .markSign => false

/-- The phase and the number behind a byte that belongs to the number. -/
def NumberPhase.next? (n : NumberText) : NumberPhase → UInt8 → Option (NumberPhase × NumberText)
  | .sign, b => (digit? b).map fun d => (if d = 0 then .zero else .whole, n.addWhole d)
  | .zero, b =>
    if b = ascii '.' then some (.point, n)
    else if b = ascii 'e' ∨ b = ascii 'E' then some (.mark, n)
    else none
  | .whole, b =>
    if b = ascii '.' then some (.point, n)
    else if b = ascii 'e' ∨ b = ascii 'E' then some (.mark, n)
    else (digit? b).map fun d => (.whole, n.addWhole d)
  | .point, b => (digit? b).map fun d => (.fraction, n.addFraction d)
  | .fraction, b =>
    if b = ascii 'e' ∨ b = ascii 'E' then some (.mark, n)
    else (digit? b).map fun d => (.fraction, n.addFraction d)
  | .mark, b =>
    if b = ascii '+' then some (.markSign, n.signPower false)
    else if b = ascii '-' then some (.markSign, n.signPower true)
    else (digit? b).map fun d => (.power, n.addPower d)
  | .markSign, b => (digit? b).map fun d => (.power, n.addPower d)
  | .power, b => (digit? b).map fun d => (.power, n.addPower d)

/-- A number at a byte that must not be there. -/
def brokenNumber : Token := .scalar (.number (.error .malformed))

/-! ### The scan -/

/-- Reads a byte between tokens. -/
def stepBetween (b : UInt8) : Mode × List Token :=
  if isBlank b then (.between, [])
  else if b = ascii '[' then (.between, [.sequenceStart])
  else if b = ascii ']' then (.between, [.sequenceEnd])
  else if b = ascii '{' then (.between, [.mappingStart])
  else if b = ascii '}' then (.between, [.mappingEnd])
  else if b = ascii ',' then (.between, [.comma])
  else if b = ascii ':' then (.between, [.colon])
  else if b = ascii '"' then (.quoted .text {}, [])
  else if b = ascii 'n' then (.word .null ("ull".toList.map ascii), [])
  else if b = ascii 't' then (.word (.bool true) ("rue".toList.map ascii), [])
  else if b = ascii 'f' then (.word (.bool false) ("alse".toList.map ascii), [])
  else if b = ascii '-' then (.number .sign ⟨true, [], none, none⟩, [])
  else
    match NumberPhase.sign.next? ⟨false, [], none, none⟩ b with
    | some (phase, n) => (.number phase n, [])
    | none => (.over, [.junk])

/-- Reads a byte of a number, or the byte behind it. -/
def stepNumber (n : NumberText) (phase : NumberPhase) (b : UInt8) : Mode × List Token :=
  match phase.next? n b with
  | some (phase, n) => (.number phase n, [])
  | none =>
    if phase.canEnd ∧ ¬(phase = .zero ∧ (digit? b).isSome) then
      let (mode, tokens) := stepBetween b
      (mode, n.token :: tokens)
    else
      (.over, [brokenNumber])

/-- Reads a byte: the mode behind it, and the tokens that it completes. -/
def Mode.step : Mode → UInt8 → Mode × List Token
  | .between, b => stepBetween b
  | .word w expected, b => stepWord w expected b
  | .number phase n, b => stepNumber n phase b
  | .quoted phase q, b => stepQuoted q phase b
  | .over, _ => (.over, [])

/-- The tokens that the end of the text completes or cuts off. -/
def Mode.finish : Mode → List Token
  | .between | .over => []
  | .word w _ => [.scalar (.word w (some .cut))]
  | .number phase n => [if phase.canEnd then n.token else .scalar (.number (.error .cut))]
  | .quoted _ q => [q.cut]

/-- The tokens of a text, from a mode on. What is complete already is passed on backward. -/
def scanFrom (state : Mode × List Token) (bytes : List UInt8) : Mode × List Token :=
  bytes.foldl
    (fun (mode, tokens) b =>
      let (mode, new) := mode.step b
      (mode, new.reverse ++ tokens))
    state

/-- The tokens of a text. -/
def tokens (bytes : List UInt8) : List Token :=
  let (mode, tokens) := scanFrom (.between, []) bytes
  tokens.reverse ++ mode.finish

end TreeCompiler.Json
