import TreeCompiler.Text.Hidden

/-!
# Lines, quotations and paths

A text consists of lines that each end with a line feed, or with a carriage return and a line feed;
what follows the last line feed is a line too unless it is empty. Columns count code points.

In messages a text is shown between quotation marks. Quotation marks and backslashes inside it, and
all that would not show by itself, are escaped.

A path is a list of names with slashes between them. Empty names and the name `.` mean nothing.
-/

namespace TreeCompiler.Text

/-! ### Lines -/

/-- Removes one carriage return at the end. -/
def dropReturn (line : List Char) : List Char :=
  if line.getLast? = some '\r' then line.dropLast else line

/-- The lines of a text; `line` holds what is already read of the first one, backward. -/
def linesFrom (line : List Char) : List Char → List (List Char)
  | [] => if line.isEmpty then [] else [line.reverse]
  | c :: rest =>
    if c = '\n' then dropReturn line.reverse :: linesFrom [] rest else linesFrom (c :: line) rest

/-- The lines of a text, without their ends. -/
def lines (text : String) : List String := (linesFrom [] text.toList).map String.ofList

/-! ### Columns -/

/-- So many times the same character. -/
def fill (n : Nat) (c : Char) : String := String.ofList (List.replicate n c)

/-- The text, filled up with blanks on the right to a width. -/
def padRight (width : Nat) (text : String) : String := text ++ fill (width - text.length) ' '

/-- The text in the middle of a width; an odd rest goes to the right. -/
def centre (c : Char) (width : Nat) (text : String) : String :=
  let rest := width - text.length
  fill (rest / 2) c ++ text ++ fill (rest - rest / 2) c

/-- The text without the blanks at its end. -/
def trimRight (text : String) : String :=
  String.ofList (text.toList.reverse.dropWhile (· = ' ')).reverse

/-! ### Quotations -/

/-- The hexadecimal digits of a number, in lower case. -/
def hex (n : Nat) : String := String.ofList (Nat.toDigits 16 n)

/-- How a character is shown between quotation marks. -/
def escapeShown (c : Char) : String :=
  match c with
  | '\x00' => "\\0"
  | '\t' => "\\t"
  | '\r' => "\\r"
  | '\n' => "\\n"
  | '"' => "\\\""
  | '\\' => "\\\\"
  | c => if isHidden c then "\\u\x7b" ++ hex c.toNat ++ "\x7d" else c.toString

/-- The text between quotation marks. -/
def quoted (text : String) : String := "\"" ++ String.join (text.toList.map escapeShown) ++ "\""

/-! ### Paths -/

/-- The pieces of a text between the separators; `piece` holds what is already read of the first
one, backward. -/
def splitFrom (separator : Char) (piece : List Char) : List Char → List (List Char)
  | [] => [piece.reverse]
  | c :: rest =>
    if c = separator then piece.reverse :: splitFrom separator [] rest
    else splitFrom separator (c :: piece) rest

/-- The names of a path that mean something. -/
def pathNames (path : String) : List (List Char) :=
  (splitFrom '/' [] path.toList).filter fun name => name ≠ [] ∧ name ≠ ['.']

/-- What follows the last dot of a name, unless the name starts with that dot. -/
def nameExtension? (name : List Char) : Option (List Char) :=
  let after := (name.reverse.takeWhile (· ≠ '.')).reverse
  if after.length + 1 < name.length then some after else none

/-- The extension of a path: that of its last name, which must not be `..`. -/
def extension? (path : String) : Option String := do
  let name ← (pathNames path).getLast?
  if name = ['.', '.'] then none else (nameExtension? name).map String.ofList

end TreeCompiler.Text
