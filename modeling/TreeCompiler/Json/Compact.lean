import TreeCompiler.Decimal.Shortest
import TreeCompiler.Document.Value

/-!
# Compact JSON texts

A value is written without white space. Of a text only quotation marks, backslashes and control
characters are escaped, those with a letter of their own by the letter.

A fault cannot be written; the text is that of the values around it.
-/

namespace TreeCompiler.Json

/-- A control character without a letter of its own, which takes four hexadecimal digits. -/
def escapeControl (c : Char) : List Char :=
  '\\' :: 'u' :: '0' :: '0' :: [Nat.digitChar (c.toNat / 16), Nat.digitChar (c.toNat % 16)]

/-- How a character of a text is written. -/
def escapeChar (c : Char) : List Char :=
  if c = '"' then ['\\', '"']
  else if c = '\\' then ['\\', '\\']
  else if c = '\x08' then ['\\', 'b']
  else if c = '\x0c' then ['\\', 'f']
  else if c = '\n' then ['\\', 'n']
  else if c = '\r' then ['\\', 'r']
  else if c = '\t' then ['\\', 't']
  else if c.toNat < 32 then escapeControl c
  else [c]

/-- A text between quotation marks. -/
def quotedText (text : String) : List Char :=
  '"' :: (text.toList.flatMap escapeChar ++ ['"'])

/-- The digits of a number. -/
def numberText : Number → List Char
  | .natural n => Nat.toDigits 10 n
  | .negative i => (toString i).toList
  | .float negative magnitude =>
    (if negative then ['-'] else []) ++ magnitude.shortest.positional.toList

/-- A value that holds no others. -/
def scalarText : Scalar → List Char
  | .word .null _ => "null".toList
  | .word (.bool true) _ => "true".toList
  | .word (.bool false) _ => "false".toList
  | .number (.ok n) => numberText n
  | .number (.error _) => []
  | .quoted text => quotedText (text.content.toOption.getD "")
  | .plain text => quotedText text

/-- A comma between two parts. -/
def separator (isLast : Bool) : List Char := if isLast then [] else [',']

mutual

/-- A value. -/
def valueText : Value → List Char
  | .scalar s => scalarText s
  | .sequence items => '[' :: (itemsText items ++ [']'])
  | .mapping fields => '\x7b' :: (fieldsText fields ++ ['\x7d'])
  | .fault _ => []

/-- The items of a sequence, with commas between them. -/
def itemsText : Items → List Char
  | .done | .broken _ => []
  | .item value rest => valueText value ++ (separator (rest matches .done) ++ itemsText rest)

/-- The fields of a mapping, with commas between them. -/
def fieldsText : Fields → List Char
  | .done | .broken _ | .noKey _ => []
  | .field key value rest =>
    quotedText (key.content.toOption.getD "") ++
      (':' :: (valueText value ++ (separator (rest matches .done) ++ fieldsText rest)))

end

/-- The compact text of a value. -/
def compact (v : Value) : String := String.ofList (valueText v)

end TreeCompiler.Json
