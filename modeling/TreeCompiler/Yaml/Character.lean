/-!
# The characters of a YAML text

What a character of a YAML text means depends on its place and on the character behind it. `place`
puts both next to each character, so that the text can be read one character at a time.

White space inside a text of several words is kept in a line and folded at the ends of lines: one
line break becomes a space, and of more than one all but the first are kept.
-/

namespace TreeCompiler.Yaml

/-! ### Kinds of characters -/

/-- Whether a character is white space within a line. -/
def isBlank (c : Char) : Bool := c = ' ' || c = '\t'

/-- Whether a character ends a line. -/
def isBreak (c : Char) : Bool := c = '\n' || c = '\r'

/-- Whether a character belongs to the notation with brackets. -/
def isFlowMark (c : Char) : Bool :=
  c = ',' || c = '?' || c = '[' || c = ']' || c = '{' || c = '}'

/-- Whether no word goes on with what follows: white space or the end of the text. -/
def endsWord : Option Char → Bool
  | none => true
  | some c => isBlank c || isBreak c

/-! ### Characters in their places -/

/-- The lines that separate documents. -/
inductive DocumentMark where
  /-- Three hyphens. -/
  | start
  /-- Three dots. -/
  | stop
deriving DecidableEq, Inhabited

/-- A character in its place. -/
structure Placed where
  char : Char
  /-- The character behind it. -/
  next : Option Char
  /-- The mark between documents that starts here. -/
  mark : Option DocumentMark
  line : Nat
  column : Nat
  /-- The number of characters before it. -/
  offset : Nat
deriving DecidableEq, Inhabited

/-- The mark between documents that a line starts with. -/
def documentMark? : List Char → Option DocumentMark
  | '-' :: '-' :: '-' :: rest => if endsWord rest.head? then some .start else none
  | '.' :: '.' :: '.' :: rest => if endsWord rest.head? then some .stop else none
  | _ => none

/-- The characters of a text from a place on. -/
def placeFrom (line column offset : Nat) : List Char → List Placed
  | [] => []
  | c :: rest =>
    { char := c
      next := rest.head?
      mark := if column = 0 then documentMark? (c :: rest) else none
      line, column, offset } ::
      if c = '\n' then placeFrom (line + 1) 0 (offset + 1) rest
      else placeFrom line (column + 1) (offset + 1) rest

/-- The text with one character for each end of a line, where it ends with two. -/
def joinBreaks : List Char → List Char
  | '\r' :: '\n' :: rest => '\n' :: joinBreaks rest
  | c :: rest => c :: joinBreaks rest
  | [] => []

/-- The characters of a text. A null character ends it. -/
def place (text : List Char) : List Placed :=
  placeFrom 0 0 0 (joinBreaks (text.takeWhile (· ≠ '\x00')))

/-! ### White space inside texts -/

/-- White space that belongs to a text only if more of the text follows. -/
structure White where
  /-- The white space before the first end of a line, backward. -/
  blanks : List Char := []
  /-- The number of ends of lines. -/
  breaks : Nat := 0
  /-- Whether it starts behind the end of a line that the text passes over. -/
  joined : Bool := false
deriving DecidableEq, Inhabited

namespace White

/-- Whether it goes over the end of a line. -/
def isBroken (w : White) : Bool := w.joined || w.breaks > 0

/-- Whether there is none. -/
def isEmpty (w : White) : Bool := w.blanks.isEmpty && !w.isBroken

/-- Adds white space; at the start of a line it does not count. -/
def addBlank (w : White) (c : Char) : White :=
  if w.isBroken then w else { w with blanks := c :: w.blanks }

/-- Adds the end of a line. -/
def addBreak (w : White) : White := { w with breaks := w.breaks + 1 }

/-- The characters that it leaves in the text, backward. -/
def folded (w : White) : List Char :=
  if w.joined then List.replicate w.breaks '\n'
  else if w.breaks = 0 then w.blanks
  else if w.breaks = 1 then [' ']
  else List.replicate (w.breaks - 1) '\n'

end White

end TreeCompiler.Yaml
