import TreeCompiler.Scope
import TreeCompiler.Text
import TreeCompiler.Tree.Basic

/-!
# Pictures of stack frames

A picture shows a procedure's frame from the highest address down: its parameters, a rule at the
frame pointer, its local variables, the two saved registers, the words for outgoing arguments, and
a rule at the stack pointer. Each row has a label, and most have a note on where it lies.

`Procedure.picture` gives the rows as data; `drawPicture` draws them.
-/

namespace TreeCompiler

/-- A row of the picture. -/
inductive PictureRow where
  /-- The stack goes on beyond the frame. -/
  | beyond
  /-- A parameter, its variable's offset and the offset that the procedure lists. -/
  | parameter (name : String) (own listed : Option Int)
  /-- The frame pointer. -/
  | frameTop
  /-- A local variable and its offset. -/
  | localVar (name : String) (offset : Option Int)
  /-- The end of the local variables. -/
  | rule
  /-- The saved frame pointer and its offset from the stack pointer. -/
  | oldFramePointer (offset : Option Int)
  /-- The saved return address and its offset from the frame pointer. -/
  | oldReturnAddress (offset : Option Int)
  /-- The start of the area for outgoing arguments. -/
  | outgoing
  /-- An area for outgoing arguments of which the size is unknown. -/
  | unknownSize
  /-- A word for an outgoing argument, counted from 1 at the stack pointer. -/
  | argument (number : Nat)
  /-- The stack pointer. -/
  | frameBottom
deriving DecidableEq, Inhabited

/-! ### The rows of a frame -/

/-- The rows for so many words of outgoing arguments, the last one on top. -/
def argumentRows : Nat → List PictureRow
  | 0 => []
  | n + 1 => .argument (n + 1) :: argumentRows n

/-- The rows of the area for outgoing arguments; an empty area has none. -/
def OutgoingArea.rows : OutgoingArea → List PictureRow
  | .noCalls => []
  | .bytes size =>
    if 0 < size then .outgoing :: argumentRows (size / Word.size).toNat else []

/-- A parameter with the offset of its variable and the offset that its procedure lists. -/
def parameterRow (own : Scope) (p : Parameter) (listed : Slot) : Option Int × PictureRow :=
  let offset := (own.findVar? p.name).bind Slot.offset
  (offset, .parameter p.name offset listed.offset)

/-- A local variable with its offset. -/
def localRow (own : Scope) (v : LocalVar) : Option Int × PictureRow :=
  let offset := (own.findVar? v.name).bind Slot.offset
  (offset, .localVar v.name offset)

/-- What a row is sorted by: its negated offset, or `absent` if it has no offset. -/
def sortKey (absent : Int) (offset : Option Int) : Int := (offset.map Word.negate).getD absent

/-- Sorts rows by their negated offsets, so that the highest one comes first. Rows of equal keys stay
in order. -/
def sortRows (absent : Int) (rows : List (Option Int × PictureRow)) : List PictureRow :=
  (rows.mergeSort fun x y => sortKey absent x.1 ≤ sortKey absent y.1).map Prod.snd

/-- The rows of a procedure's frame, from the highest address down. -/
def Procedure.picture (p : Procedure) (entry : ProcedureEntry) (own : Scope) : List PictureRow :=
  let parameters := List.zipWith (parameterRow own) p.parameters entry.parameters
  let locals := p.locals.map (localRow own)
  [.beyond] ++ sortRows Word.min parameters ++ [.frameTop] ++
    (if locals.isEmpty then [] else sortRows 0 locals ++ [.rule]) ++
    [.oldFramePointer entry.layout.oldFramePointer,
      .oldReturnAddress entry.layout.oldReturnAddress] ++
    (match entry.layout.outgoing with
      | none => [.outgoing, .unknownSize]
      | some area => area.rows) ++
    [.frameBottom, .beyond]

/-! ### Drawing -/

/-- A size that may be impossible to tell. -/
def showKnown : Option Int → String
  | some i => toString i
  | none => "UNKNOWN"

namespace PictureRow

/-- What stands inside the row. -/
def label : PictureRow → String
  | beyond => "..."
  | parameter name _ _ => "par " ++ name
  | frameTop => "BEGIN"
  | localVar name _ => "var " ++ name
  | rule => ""
  | oldFramePointer _ => "Old FP"
  | oldReturnAddress _ => "Old Return"
  | outgoing => "outgoing area"
  | unknownSize => "UNKNOWN SIZE"
  | argument number => "arg " ++ toString number
  | frameBottom => "END"

/-- What stands to the right of the row. -/
def note : PictureRow → String
  | parameter _ own listed =>
    "<- FP + " ++
      if own = listed then Word.showOption own
      else "INCONSISTENT(" ++ Word.showOption own ++ "/" ++ Word.showOption listed ++ ")"
  | frameTop => "<- FP"
  | localVar _ offset => "<- FP - " ++ Word.showOption (offset.map Word.negate)
  | oldFramePointer offset => "<- SP + " ++ showKnown offset
  | oldReturnAddress offset => "<- FP - " ++ showKnown (offset.map Word.negate)
  | argument number => "<- SP + " ++ toString ((number - 1) * Word.size)
  | frameBottom => "<- SP"
  | beyond | rule | outgoing | unknownSize => ""

/-- The row without its note, in a column of a width. -/
def body (width : Nat) (row : PictureRow) : String :=
  match row with
  | beyond => " " ++ Text.centre ' ' width row.label ++ " "
  | rule => "+" ++ Text.fill width '-' ++ "+"
  | frameTop | outgoing | frameBottom =>
    "+" ++ Text.centre '-' width (" " ++ row.label ++ " ") ++ "+"
  | parameter _ _ _ | localVar _ _ | oldFramePointer _ | oldReturnAddress _ | unknownSize
  | argument _ =>
    "|" ++ Text.padRight width (" " ++ row.label) ++ "|"

/-- The row with its note, in a column of a width. -/
def draw (width : Nat) (row : PictureRow) : String :=
  Text.trimRight (row.body width ++ " " ++ row.note) ++ "\n"

end PictureRow

/-- The least width of a picture's column. -/
def pictureMinWidth : Nat := 14

/-- The width of a picture's column: the bytes of the longest label, and a blank on both sides. -/
def pictureWidth (rows : List PictureRow) : Nat :=
  rows.foldl (fun width row => max width (row.label.utf8ByteSize + 2)) pictureMinWidth

/-- The picture of a list of rows. -/
def drawPicture (rows : List PictureRow) : String :=
  String.join (rows.map (·.draw (pictureWidth rows)))

end TreeCompiler
