import Mathlib.Logic.Relation
import TreeCompiler.Tree.Written

/-!
# Editing the spelling of a tree

The value that a text says may spell a tree in many ways.  A `Form` tells how a construct is spelt: as
a record of named fields, as a tuple, as a choice between variants, and so on.  `Edit f v v'` says that
the value `v'` comes from `v` by a single edit of the spelling, somewhere inside a value of the form
`f`: fields change places, a field with an unknown name is added, an absent value is left out, a record
is written as the list of its fields, or an operator as the mapping of its name.  Two values are
spellings of the same construct if any number of edits, done and undone, lead from one to the other
(`Respelled`).
-/

namespace TreeCompiler

/-! ### The forms of constructs -/

/-- The constructs of a program. -/
inductive Construct where
  | mark | type | place | expr | stmt | parameter | localVar | typeDef | procedure | definition | program
deriving DecidableEq

/-- How something is spelt. -/
inductive Form where
  /-- As a value that holds no others. -/
  | scalar
  /-- As a list of values of one form. -/
  | list (item : Form)
  /-- As no value, or in a form. -/
  | optional (form : Form)
  /-- As an object of named fields, or as the list of these; the fields that are listed apart may be
  left out of an object where they have the listed value. -/
  | record (fields : List (String × Form)) (absent : List (String × Value))
  /-- As a list of parts. -/
  | tuple (parts : List Form)
  /-- As a list of a mark, one of some operators, and operands. -/
  | operation (operators : List String) (operands : List Form)
  /-- As the mapping of a name to a content. -/
  | choice (variants : List (String × Form))
  /-- As a construct. -/
  | construct (c : Construct)

namespace Form

/-- The form of a mark. -/
def mark : Form := .construct .mark

/-- The form of a record of which nothing may be left out, and which starts with its mark. -/
def fields (l : List (String × Form)) : Form := .record (("context", mark) :: l) []

end Form

/-- How each construct is spelt. -/
def Construct.form : Construct → Form
  | mark => .record [("line", .scalar)] [("line", .int 0)]
  | type => .choice
    [("Named", .tuple [.mark, .scalar]),
      ("Array", .fields [("length", .scalar), ("base", .construct type)])]
  | place => .choice
    [("Named", .tuple [.mark, .scalar]),
      ("ArrayAccess", .fields [("array", .construct place), ("index", .construct expr)])]
  | expr => .choice
    [("IntLiteral", .tuple [.mark, .scalar]),
      ("BoolLiteral", .tuple [.mark, .scalar]),
      ("Variable", .tuple [.mark, .construct place]),
      ("UnaryOp", .operation ["Minus"] [.construct expr]),
      ("BinaryOp", .operation
        ["Add", "Sub", "Mul", "Div", "Eq", "NEq", "Ls", "LsEq", "Gr", "GrEq"]
        [.construct expr, .construct expr])]
  | stmt => .choice
    [("Empty", .mark),
      ("Compound", .tuple [.mark, .list (.construct stmt)]),
      ("Assign", .fields [("target", .construct place), ("value", .construct expr)]),
      ("If", .record
        [("context", .mark), ("cond", .construct expr), ("then_part", .construct stmt),
          ("else_part", .optional (.construct stmt))]
        [("else_part", .null)]),
      ("While", .fields [("cond", .construct expr), ("body", .construct stmt)]),
      ("Call", .fields [("procedure", .scalar), ("arguments", .list (.construct expr))])]
  | parameter => .fields [("name", .scalar), ("ty", .construct type), ("is_reference", .scalar)]
  | localVar | typeDef => .fields [("name", .scalar), ("ty", .construct type)]
  | procedure => .fields
    [("name", .scalar), ("parameters", .list (.construct parameter)),
      ("variables", .list (.construct localVar)), ("body", .list (.construct stmt))]
  | definition => .choice
    [("Type", .construct typeDef), ("Procedure", .construct procedure)]
  | program => .record [("definitions", .list (.construct definition))] []

/-! ### Edits -/

/-- A value comes from another by a single edit of its spelling. -/
inductive Edit : Form → Value → Value → Prop
  /-- The fields of an object change places. -/
  | permuted {fields : List (String × Form)} {absent : List (String × Value)}
      {l l' : List (String × Value)} (h : l.Perm l') :
      Edit (.record fields absent) (.object l) (.object l')
  /-- A field with an unknown name is added to an object; its value has no faults of the text. -/
  | unknown {fields : List (String × Form)} {absent : List (String × Value)}
      {l : List (String × Value)} {name : String} {value : Value}
      (hname : name ∉ fields.map Prod.fst) (hvalue : value.flaw = none) :
      Edit (.record fields absent) (.object l) (.object ((name, value) :: l))
  /-- A field that may be absent is left out of an object. -/
  | absent {fields : List (String × Form)} {absent : List (String × Value)}
      {l : List (String × Value)} {name : String} {value : Value} (h : (name, value) ∈ absent)
      (hname : name ∉ l.map Prod.fst) :
      Edit (.record fields absent) (.object ((name, value) :: l)) (.object l)
  /-- An object of all fields in order becomes the list of these. -/
  | listed {fields : List (String × Form)} {absent : List (String × Value)} {values : List Value}
      (h : values.length = fields.length) :
      Edit (.record fields absent) (.object ((fields.map Prod.fst).zip values)) (.list values)
  /-- A mark without a line becomes an empty list. -/
  | noLine : Edit .mark (.object []) (.list [])
  /-- The name of an operator becomes the mapping of the name to no value. -/
  | operator {operators : List String} {operands : List Form} {name : String} {mark : Value}
      {values : List Value} (h : name ∈ operators) :
      Edit (.operation operators operands) (.list (mark :: .string name :: values))
        (.list (mark :: .variant name .null :: values))
  /-- The value of a field is edited. -/
  | field {fields : List (String × Form)} {absent : List (String × Value)}
      {l : List (String × Value)} {name : String} {f : Form} {v v' : Value}
      (hname : (name, f) ∈ fields) (h : Edit f v v') :
      Edit (.record fields absent) (.object ((name, v) :: l)) (.object ((name, v') :: l))
  /-- A part of a tuple is edited. -/
  | part {before behind : List Form} {values values' : List Value} {f : Form} {v v' : Value}
      (hlength : values.length = before.length) (h : Edit f v v') :
      Edit (.tuple (before ++ f :: behind)) (.list (values ++ v :: values'))
        (.list (values ++ v' :: values'))
  /-- The mark or an operand of an operation is edited. -/
  | operand {operators : List String} {operands : List Form} {v v' : Value}
      (h : Edit (.tuple (.mark :: .scalar :: operands)) v v') :
      Edit (.operation operators operands) v v'
  /-- An item of a list is edited. -/
  | item {before behind : List Value} {f : Form} {v v' : Value} (h : Edit f v v') :
      Edit (.list f) (.list (before ++ v :: behind)) (.list (before ++ v' :: behind))
  /-- A value that may be none, but is one, is edited. -/
  | present {f : Form} {v v' : Value} (h : Edit f v v') : Edit (.optional f) v v'
  /-- The content of a variant is edited. -/
  | content {variants : List (String × Form)} {name : String} {f : Form} {v v' : Value}
      (hname : (name, f) ∈ variants) (h : Edit f v v') :
      Edit (.choice variants) (.variant name v) (.variant name v')
  /-- A construct is edited. -/
  | construct {c : Construct} {v v' : Value} (h : Edit c.form v v') : Edit (.construct c) v v'

/-- Two values are spellings of the same construct: edits lead from one to the other. -/
def Respelled (c : Construct) : Value → Value → Prop := Relation.EqvGen (Edit (.construct c))

end TreeCompiler
