import TreeCompiler.Json.Text
import TreeCompiler.Text
import TreeCompiler.Tree.Shape
import TreeCompiler.Yaml.Text

/-!
# The files that trees are read from

A tree is read from a JSON or a YAML text; the extension of a file tells which one it is. The two
formats differ in how deep a tree may nest.
-/

namespace TreeCompiler

/-- The format of a file. -/
inductive Format where
  | json | yaml
deriving DecidableEq, Inhabited

namespace Format

/-- The format that the extension of a path tells. -/
def ofPath? (path : String) : Option Format :=
  match Text.extension? path with
  | some "json" => some json
  | some "yaml" | some "yml" => some yaml
  | _ => none

/-- The name of a format in messages. -/
def name : Format → String
  | json => "JSON"
  | yaml => "YAML"

/-- How trees may nest in a format. -/
def nesting : Format → Nesting
  | json => { limit := 127, wrapper := 1 }
  | yaml => { limit := 128, wrapper := 0 }

/-- What a text in a format says. -/
def parse : Format → List UInt8 → Document
  | json => Json.parse
  | yaml => Yaml.parse

/-- What is said about a text that holds no tree. -/
def invalidMessage (f : Format) : String := "Invalid " ++ f.name ++ " syntax tree"

end Format

/-- Reads a program from the bytes of a text. -/
def Program.read (bytes : List UInt8) (format : Format) : Except ReadError Program :=
  (format.parse bytes).program format.nesting

/-- What is said about a text whose content is refused. -/
def ContentError.report (e : ContentError) (format : Format) : String :=
  format.invalidMessage ++ ": " ++ e.message

end TreeCompiler
