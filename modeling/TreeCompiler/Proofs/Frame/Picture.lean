import TreeCompiler.Proofs.Frame.Annotation
import TreeCompiler.Proofs.Frame.Framed
import TreeCompiler.Proofs.Frame.Geometry

/-!
# The picture of a frame is the frame

A picture of a frame that is laid out shows every parameter and every local variable once, one row for
each word of the area for outgoing arguments, and no offset that is missing.  Read with the frame
pointer as far above the stack pointer as the frame is large, its notes are addresses that go down
from row to row, and strictly so wherever something takes bytes (`Procedure.Pictured`,
`Program.picture_frame`).
-/

namespace TreeCompiler

/-! ### Rows of a frame that is laid out -/

/-- What a picture of a frame that is laid out shows: the parameters with their bytes above the frame
pointer and the local variables with theirs below it, from the top down; the saved frame pointer above
the stack pointer; the saved return address below the frame pointer; and the words for outgoing
arguments. -/
structure FrameRows where
  parameters : List (String × Nat)
  locals : List (String × Nat)
  framePointer : Nat
  returnAddress : Nat
  arguments : Nat

/-- The rows of the picture. -/
def FrameRows.rows (f : FrameRows) : List PictureRow :=
  [.beyond] ++ f.parameters.map (fun x => .parameter x.1 (some x.2) (some x.2)) ++ [.frameTop] ++
    (if f.locals.isEmpty then []
      else f.locals.map (fun x => .localVar x.1 (some (-x.2))) ++ [.rule]) ++
    [.oldFramePointer (some f.framePointer), .oldReturnAddress (some (-f.returnAddress))] ++
    (if f.arguments = 0 then [] else .outgoing :: argumentRows f.arguments) ++
    [.frameBottom, .beyond]

/-- Whether a row has to lie strictly below the row before it: a rule takes no bytes, and neither does
a local variable of no size. -/
def PictureRow.TakesBytes (size : String → Nat) : PictureRow → Prop
  | .localVar name _ => 0 < size name
  | .parameter _ _ _ | .oldFramePointer _ | .oldReturnAddress _ | .argument _ => True
  | .beyond | .frameTop | .rule | .outgoing | .unknownSize | .frameBottom => False

/-- A row lies below the row before it. -/
def Under (size : String → Nat) (above below : PictureRow × Int) : Prop :=
  below.2 ≤ above.2 ∧ (below.1.TakesBytes size → below.2 < above.2)

/-- The rows that say where they lie, with their addresses. -/
def placedRows (fp sp : Int) (rows : List PictureRow) : List (PictureRow × Int) :=
  rows.filterMap (PictureRow.place? fp sp)

/-- The bytes of a variable of a scope. -/
def Tables.variableBytes (t : Tables) (scope : ScopeId) (name : String) : Nat :=
  (((t.scope scope).findVar? name).map fun slot => t.types.byteSize slot.type).getD 0

/-- The picture of a procedure's frame is the frame. -/
structure Procedure.Pictured (q : Procedure) (t : Tables) (e : ProcedureEntry) (size : Int) :
    Prop where
  /-- Every variable has one row, and every word for outgoing arguments. -/
  complete : ∃ f : FrameRows, q.picture e (t.scope e.scope) = f.rows ∧
    (f.parameters.map Prod.fst).Perm (q.parameters.map Parameter.name) ∧
    (f.locals.map Prod.fst).Perm (q.locals.map LocalVar.name) ∧
    (q.parameters.map Parameter.name ++ q.locals.map LocalVar.name).Nodup ∧
    (∀ x ∈ f.parameters.getLast?, x.2 = 0) ∧
    ∃ area, e.layout.outgoing = some area ∧ area.size = Word.size * f.arguments
  /-- Every row says where it lies, apart from those that only divide the picture. -/
  notes : ∀ row ∈ q.picture e (t.scope e.scope),
    (∃ a, row.annotation? = some a ∧ row.note = a.text) ∨
      row = .beyond ∨ row = .rule ∨ row = .outgoing
  /-- The addresses go down. -/
  descends : ∀ sp, (placedRows (sp + size) sp (q.picture e (t.scope e.scope))).IsChain
    (Under (t.variableBytes e.scope))

/-! ### The rows in closed form -/

/-- The parameters at consecutive words from a height upward. -/
def heightsFrom : Nat → List Parameter → List (String × Nat)
  | _, [] => []
  | n, x :: rest => (x.name, n) :: heightsFrom (n + Word.size) rest

/-- The local variables from a depth downward, each one directly below the one before. -/
def depthsFrom (names : List (String × ValueShape)) : Nat → List LocalVar → List (String × Nat)
  | _, [] => []
  | n, v :: rest => (v.name, n + v.decl.bytes names) :: depthsFrom names (n + v.decl.bytes names) rest

/-- The rows of a procedure's frame as its declarations and the signatures of its callees tell
them. -/
def Procedure.frameRows (names : List (String × ValueShape))
    (signature : String → Option (List Formal)) (q : Procedure) : FrameRows where
  parameters := (heightsFrom 0 q.parameters).reverse
  locals := depthsFrom names 0 q.locals
  framePointer := q.outgoingBytes signature + Word.size
  returnAddress := q.localBytes names + 2 * Word.size
  arguments := q.outgoingBytes signature / Word.size

section
variable {names : List (String × ValueShape)} {n : Nat}

/-- Every parameter has a height. -/
lemma map_fst_heightsFrom {l : List Parameter} :
    (heightsFrom n l).map Prod.fst = l.map Parameter.name := by
  induction l generalizing n with
  | nil => rfl
  | cons x rest ih => rw [heightsFrom, List.map_cons, List.map_cons, ih]

/-- Every local variable has a depth. -/
lemma map_fst_depthsFrom {l : List LocalVar} :
    (depthsFrom names n l).map Prod.fst = l.map LocalVar.name := by
  induction l generalizing n with
  | nil => rfl
  | cons v rest ih => rw [depthsFrom, List.map_cons, List.map_cons, ih]

/-- Parameters lie at or above the height that they start from. -/
lemma le_of_mem_heightsFrom {l : List Parameter} {x : String × Nat} (hx : x ∈ heightsFrom n l) :
    n ≤ x.2 := by
  induction l generalizing n with
  | nil => cases hx
  | cons y rest ih =>
    rcases List.mem_cons.mp hx with rfl | hx
    · exact Nat.le_refl n
    · exact (Nat.le_add_right _ _).trans (ih hx)

/-- Local variables lie between the depth that they start from and that of the last one. -/
lemma bounds_of_mem_depthsFrom {l : List LocalVar} {x : String × Nat}
    (hx : x ∈ depthsFrom names n l) : n ≤ x.2 ∧ x.2 ≤ n + bytesOf names (l.map LocalVar.decl) := by
  induction l generalizing n with
  | nil => cases hx
  | cons v rest ih =>
    have hbytes : bytesOf names ((v :: rest).map LocalVar.decl) =
        v.decl.bytes names + bytesOf names (rest.map LocalVar.decl) := List.sum_cons
    rw [hbytes]
    rcases List.mem_cons.mp hx with rfl | hx
    · dsimp only
      omega
    · have hrest := ih hx
      omega

/-- The heights of parameters go up. -/
lemma pairwise_heightsFrom {l : List Parameter} :
    (heightsFrom n l).Pairwise fun x y => x.2 < y.2 := by
  induction l generalizing n with
  | nil => exact .nil
  | cons x rest ih =>
    exact .cons (fun y hy => Nat.lt_of_lt_of_le (Nat.lt_add_of_pos_right (by decide))
      (le_of_mem_heightsFrom hy)) ih

/-- The depths of local variables do not go up. -/
lemma pairwise_depthsFrom {l : List LocalVar} :
    (depthsFrom names n l).Pairwise fun x y => x.2 ≤ y.2 := by
  induction l generalizing n with
  | nil => exact .nil
  | cons v rest ih => exact .cons (fun y hy => (bounds_of_mem_depthsFrom hy).1) ih

end

/-! ### What the tables give -/

section
variable {names : List (String × ValueShape)} {t : Tables} {id : ScopeId} {n : Nat}

/-- The rows of parameters at consecutive words. -/
lemma zipWith_parameterRow {l : List Parameter} {slots : List Slot}
    (hslots : slots.map Slot.offset = (wordsFrom n l.length).map some)
    (hplaces : List.Forall₂ (t.Places id) (l.map Parameter.decl) (wordsFrom n l.length)) :
    List.zipWith (parameterRow (t.scope id)) l slots = (heightsFrom n l).map fun x =>
      (some (x.2 : Int), .parameter x.1 (some x.2) (some x.2)) := by
  induction l generalizing n slots with
  | nil => rfl
  | cons x rest ih =>
    rw [List.length_cons, wordsFrom, List.map_cons] at hslots hplaces
    obtain ⟨s, slots, rfl, hs, hslots⟩ := List.map_eq_cons_iff.mp hslots
    obtain ⟨hx, hrest⟩ := List.forall₂_cons.mp hplaces
    have hown : ((t.scope id).findVar? x.name).bind Slot.offset = some (n : Int) :=
      Tables.bind_offset_eq_some.mpr hx
    rw [← Int.natCast_add] at hslots hrest
    rw [List.zipWith_cons_cons, heightsFrom, List.map_cons, ih hslots hrest, parameterRow, hown, hs]

/-- The rows of local variables that lie one below the other. -/
lemma map_localRow {l : List LocalVar} (hplaces : List.Forall₂ (t.Places id)
      (l.map LocalVar.decl) (offsetsBelow names (-n) (l.map LocalVar.decl))) :
    l.map (localRow (t.scope id)) = (depthsFrom names n l).map fun x =>
      (some (-x.2 : Int), .localVar x.1 (some (-x.2))) := by
  induction l generalizing n with
  | nil => rfl
  | cons v rest ih =>
    rw [List.map_cons, offsetsBelow] at hplaces
    obtain ⟨hv, hrest⟩ := List.forall₂_cons.mp hplaces
    have hdepth : -(n : Int) - v.decl.bytes names = -((n + v.decl.bytes names : Nat) : Int) := by
      push_cast
      ring
    rw [hdepth] at hv hrest
    have hown : ((t.scope id).findVar? v.name).bind Slot.offset = _ :=
      Tables.bind_offset_eq_some.mpr hv
    rw [List.map_cons, depthsFrom, List.map_cons, ih hrest, localRow, hown]

/-- The area for outgoing arguments has a row for each of its words, and none if it is empty. -/
lemma OutgoingArea.rows_eq {area : OutgoingArea} {words : Nat}
    (h : area.size = Word.size * words) :
    area.rows = if words = 0 then [] else .outgoing :: argumentRows words := by
  have hword : (Word.size : Int) = 4 := rfl
  cases area with
  | noCalls =>
    rw [OutgoingArea.size, hword] at h
    rw [if_pos (by omega), OutgoingArea.rows]
  | bytes size =>
    rw [OutgoingArea.size, hword] at h
    rw [OutgoingArea.rows, h, hword]
    rcases Nat.eq_zero_or_pos words with rfl | hpos
    · rfl
    · rw [if_pos (by omega), if_neg (Nat.ne_of_gt hpos), Int.mul_ediv_cancel_left _ (by decide),
        Int.toNat_natCast]

end

/-- The area for outgoing arguments consists of words. -/
lemma Procedure.size_mul_div_outgoingBytes (signature : String → Option (List Formal))
    (q : Procedure) :
    Word.size * (q.outgoingBytes signature / Word.size) = q.outgoingBytes signature := by
  have haligned : (q.frameMap [] signature).Aligned := Procedure.frameMap_aligned
  have hdvd : (Word.size : Int) ∣ q.outgoingBytes signature :=
    haligned.numbers _ (by simp [Procedure.frameMap])
  exact Nat.mul_div_cancel' (Int.natCast_dvd_natCast.mp hdvd)

/-- Parameters are shown with the last one on top. -/
lemma sortRows_heights (absent : Int) (l : List Parameter) :
    sortRows absent ((heightsFrom 0 l).map fun x =>
        (some (x.2 : Int), .parameter x.1 (some x.2) (some x.2))) =
      (heightsFrom 0 l).reverse.map fun x => .parameter x.1 (some x.2) (some x.2) := by
  have hoffsets : ((heightsFrom 0 l).map fun x => ((some (x.2 : Int), PictureRow.parameter x.1
      (some x.2) (some x.2)) : Option Int × PictureRow)).map Prod.fst =
        ((heightsFrom 0 l).map fun x => (x.2 : Int)).map some := by
    simp [Function.comp_def]
  rw [sortRows_of_ascending hoffsets, List.map_map, List.map_reverse]
  · rfl
  · intro i hi
    obtain ⟨x, -, rfl⟩ := List.mem_map.mp hi
    exact Int.lt_of_lt_of_le (by decide) (Int.natCast_nonneg _)
  · exact List.pairwise_map.mpr (pairwise_heightsFrom.imp Int.ofNat_lt.mpr)

/-- Local variables that fit are shown in the order of their declaration. -/
lemma sortRows_depths (absent : Int) {names : List (String × ValueShape)} (l : List LocalVar)
    (hfits : (bytesOf names (l.map LocalVar.decl) : Int) ≤ Word.max) :
    sortRows absent ((depthsFrom names 0 l).map fun x =>
        (some (-x.2 : Int), .localVar x.1 (some (-x.2)))) =
      (depthsFrom names 0 l).map fun x => .localVar x.1 (some (-x.2)) := by
  have hoffsets : ((depthsFrom names 0 l).map fun x => ((some (-x.2 : Int), PictureRow.localVar x.1
      (some (-x.2))) : Option Int × PictureRow)).map Prod.fst =
        ((depthsFrom names 0 l).map fun x => (-x.2 : Int)).map some := by
    simp [Function.comp_def]
  rw [sortRows_of_descending hoffsets, List.map_map]
  · rfl
  · intro i hi
    obtain ⟨x, hx, rfl⟩ := List.mem_map.mp hi
    have hdepth := (bounds_of_mem_depthsFrom hx).2
    unfold Word.max at hfits
    unfold Word.min
    omega
  · exact List.pairwise_map.mpr (pairwise_depthsFrom.imp fun hxy =>
      Int.neg_le_neg (Int.ofNat_le.mpr hxy))

/-- The area for outgoing arguments in a layout. -/
lemma Procedure.frameLayout_outgoing (names : List (String × ValueShape))
    (signature : String → Option (List Formal)) (q : Procedure) :
    ∃ area, (q.frameLayout names signature).outgoing = some area ∧
      area.size = q.outgoingBytes signature := by
  refine ⟨_, rfl, ?_⟩
  split
  · rename_i hempty
    rw [Procedure.outgoingBytes, List.isEmpty_iff.mp hempty]
    rfl
  · rfl

namespace Procedure.Framed

variable {names : List (String × ValueShape)} {signature : String → Option (List Formal)}
  {q : Procedure} {t : Tables} {e : ProcedureEntry}

/-- The places of the parameters and of the local variables. -/
lemma forall₂_places (h : q.Framed names signature t e) :
    List.Forall₂ (t.Places e.scope) (q.parameters.map Parameter.decl)
        (wordsFrom 0 q.parameters.length) ∧
      List.Forall₂ (t.Places e.scope) (q.locals.map LocalVar.decl)
        (offsetsBelow names 0 (q.locals.map LocalVar.decl)) :=
  forall₂_append_of_length (by rw [List.length_map, length_wordsFrom]) h.places

/-- The picture of a frame that is laid out has the rows of the closed form. -/
lemma picture_eq (h : q.Framed names signature t e)
    (hfits : (q.frameBytes names signature : Int) ≤ Word.max) :
    q.picture e (t.scope e.scope) = (q.frameRows names signature).rows := by
  obtain ⟨hparameters, hlocals⟩ := h.forall₂_places
  obtain ⟨area, harea, hsize⟩ := q.frameLayout_outgoing names signature
  have hmin : Word.min ≤ 0 := by decide
  rw [Procedure.frameBytes] at hfits
  push_cast at hfits
  have hlocalsFit : (bytesOf names (q.locals.map LocalVar.decl) : Int) ≤ Word.max := by
    unfold Procedure.localBytes at hfits
    omega
  have hpointer : e.layout.oldFramePointer = some (q.outgoingBytes signature + Word.size : Int) := by
    rw [h.layout]
    exact (FrameLayout.oldFramePointer_eq_some harea).mpr ⟨by rw [hsize], by omega, by omega⟩
  have haddress : e.layout.oldReturnAddress =
      some (-(q.localBytes names + 2 * Word.size : Int)) := by
    have hsaved : FrameLayout.savedRegisters = 2 * (Word.size : Int) := rfl
    rw [h.layout]
    exact (FrameLayout.oldReturnAddress_eq_some rfl).mpr ⟨rfl, by omega, by omega⟩
  have hwords : area.size = Word.size * (q.outgoingBytes signature / Word.size : Nat) := by
    rw [hsize, ← Int.natCast_mul, q.size_mul_div_outgoingBytes signature]
  have hempty : (q.locals.map (localRow (t.scope e.scope))).isEmpty =
      (depthsFrom names 0 q.locals).isEmpty := by
    rw [map_localRow (n := 0) hlocals]
    cases depthsFrom names 0 q.locals <;> rfl
  unfold Procedure.picture FrameRows.rows Procedure.frameRows
  dsimp only
  rw [hempty, zipWith_parameterRow (n := 0) h.parameters hparameters, sortRows_heights,
    map_localRow (n := 0) hlocals, sortRows_depths 0 q.locals hlocalsFit, hpointer, haddress,
    h.layout, harea, ← OutgoingArea.rows_eq hwords]
  push_cast
  rfl

/-- The bytes of a local variable that the scope tells are those of its declaration. -/
lemma variableBytes_eq (h : t.Declares names q e) (hwf : t.types.WellFormed) {v : LocalVar}
    (hv : v ∈ q.locals) : t.variableBytes e.scope v.name = v.decl.bytes names := by
  obtain ⟨slot, hslot, hholds⟩ :=
    h.knows v.decl (List.mem_append_right _ (List.mem_map_of_mem hv))
  have hfound : (t.scope e.scope).findVar? v.name = some slot := Tables.findVar?_eq_some.mpr hslot
  unfold Tables.variableBytes
  rw [hfound, Option.map_some, Option.getD_some, hholds.byteSize_eq hwf]

end Procedure.Framed

/-! ### Addresses -/

section
variable {names : List (String × ValueShape)} {size : String → Nat} {fp sp : Int}
  {rows rows' : List PictureRow} {above : PictureRow × Int} {tail : List (PictureRow × Int)} {n : Nat}

/-- The rows of two parts of a picture. -/
lemma placedRows_append :
    placedRows fp sp (rows ++ rows') = placedRows fp sp rows ++ placedRows fp sp rows' :=
  List.filterMap_append

/-- A row that lies somewhere. -/
lemma placedRows_cons {row : PictureRow} {a : Int} (h : row.place? fp sp = some (row, a)) :
    placedRows fp sp (row :: rows) = (row, a) :: placedRows fp sp rows :=
  List.filterMap_cons_some h

/-- Parameters go up from a row that lies no higher than the first of them, and strictly below it if
it takes bytes. -/
lemma isChain_heights {l : List Parameter} (hle : above.2 ≤ fp + n)
    (hlt : above.1.TakesBytes size → above.2 < fp + n) :
    (above :: placedRows fp sp ((heightsFrom n l).map fun x =>
      .parameter x.1 (some x.2) (some x.2))).IsChain fun x y => Under size y x := by
  induction l generalizing n above with
  | nil => exact .singleton _
  | cons x rest ih =>
    rw [heightsFrom, List.map_cons,
      placedRows_cons (PictureRow.place?_parameter (Int.natCast_nonneg n)), List.isChain_cons_cons]
    refine ⟨⟨hle, hlt⟩, ih ?_ fun _ => ?_⟩
    · push_cast
      omega
    · have hword : Word.size = 4 := rfl
      push_cast
      omega

/-- Local variables go down from a row that lies at the depth that they start from. -/
lemma isChain_depths {l : List LocalVar} (habove : above.2 = fp - n)
    (hfits : (n + bytesOf names (l.map LocalVar.decl) : Int) ≤ Word.max)
    (hsize : ∀ v ∈ l, size v.name = v.decl.bytes names)
    (htail : ∀ y : PictureRow × Int, y.2 = fp - (n + bytesOf names (l.map LocalVar.decl) : Nat) →
      (y :: tail).IsChain (Under size)) :
    (above :: (placedRows fp sp ((depthsFrom names n l).map fun x =>
      .localVar x.1 (some (-x.2))) ++ tail)).IsChain (Under size) := by
  induction l generalizing n above with
  | nil => exact htail above habove
  | cons v rest ih =>
    have hbytes : bytesOf names ((v :: rest).map LocalVar.decl) =
        v.decl.bytes names + bytesOf names (rest.map LocalVar.decl) := List.sum_cons
    rw [hbytes] at hfits htail
    push_cast at hfits
    obtain ⟨hv, hsize⟩ := List.forall_mem_cons.mp hsize
    have hplace : (PictureRow.localVar v.name (some (-(n + v.decl.bytes names : Nat)))).place? fp sp =
        some (_, fp + -(n + v.decl.bytes names : Nat)) :=
      PictureRow.place?_localVar (by unfold Word.min; unfold Word.max at hfits; omega) (by omega)
    rw [depthsFrom, List.map_cons, placedRows_cons hplace, List.cons_append, List.isChain_cons_cons]
    refine ⟨⟨?_, fun htakes => ?_⟩, ih ?_ ?_ hsize fun y hy => htail y ?_⟩
    · dsimp only
      omega
    · change 0 < size v.name at htakes
      rw [hv] at htakes
      dsimp only
      omega
    · dsimp only
      omega
    · push_cast
      omega
    · rw [hy, Nat.add_assoc]

/-- The words for outgoing arguments go down to the stack pointer. -/
lemma isChain_arguments (habove : above.2 = sp + Word.size * n)
    (htail : ∀ y : PictureRow × Int, y.2 = sp → (y :: tail).IsChain (Under size)) :
    (above :: (placedRows fp sp (argumentRows n) ++ tail)).IsChain (Under size) := by
  have hword : Word.size = 4 := rfl
  induction n generalizing above with
  | zero => exact htail above (by simpa using habove)
  | succ n ih =>
    have hplace : (PictureRow.argument (n + 1)).place? fp sp =
        some (.argument (n + 1), sp + (n * Word.size : Nat)) := rfl
    rw [argumentRows, placedRows_cons hplace, List.cons_append, List.isChain_cons_cons]
    refine ⟨⟨?_, fun _ => ?_⟩, ih ?_⟩
    all_goals
      rw [hword] at *
      dsimp only
      push_cast at *
      omega

end

/-- The rows of a picture that lie somewhere: the parameters, the frame pointer, the local variables, the
saved registers, the words for outgoing arguments, and the stack pointer. -/
lemma FrameRows.placedRows_rows (f : FrameRows) (fp sp : Int)
    (hfits : (f.returnAddress : Int) ≤ Word.max) :
    placedRows fp sp f.rows =
      placedRows fp sp (f.parameters.map fun x => .parameter x.1 (some x.2) (some x.2)) ++
        (.frameTop, fp) ::
          (placedRows fp sp (f.locals.map fun x => .localVar x.1 (some (-x.2))) ++
            (.oldFramePointer (some f.framePointer), sp + f.framePointer) ::
              (.oldReturnAddress (some (-f.returnAddress)), fp + -f.returnAddress) ::
                (placedRows fp sp (argumentRows f.arguments) ++ [(.frameBottom, sp)])) := by
  have hpointer : (PictureRow.oldFramePointer (some (f.framePointer : Int))).place? fp sp = _ :=
    PictureRow.place?_oldFramePointer (Int.natCast_nonneg _)
  have haddress : (PictureRow.oldReturnAddress (some (-f.returnAddress : Int))).place? fp sp = _ :=
    PictureRow.place?_oldReturnAddress (by unfold Word.max at hfits; unfold Word.min; omega) (by omega)
  have hsaved : placedRows fp sp [.oldFramePointer (some f.framePointer),
      .oldReturnAddress (some (-f.returnAddress))] =
        [(.oldFramePointer (some f.framePointer), sp + f.framePointer),
          (.oldReturnAddress (some (-f.returnAddress)), fp + -f.returnAddress)] := by
    rw [placedRows_cons hpointer, placedRows_cons haddress]
    rfl
  have hlocals : placedRows fp sp (if f.locals.isEmpty then []
      else f.locals.map (fun x => .localVar x.1 (some (-x.2))) ++ [.rule]) =
        placedRows fp sp (f.locals.map fun x => .localVar x.1 (some (-x.2))) := by
    split
    · rename_i hempty
      rw [List.isEmpty_iff.mp hempty]
      rfl
    · rw [placedRows_append]
      exact List.append_nil _
  have harguments : placedRows fp sp (if f.arguments = 0 then []
      else .outgoing :: argumentRows f.arguments) = placedRows fp sp (argumentRows f.arguments) := by
    split
    · rename_i hzero
      rw [hzero]
      rfl
    · rfl
  unfold FrameRows.rows
  simp only [placedRows_append, hlocals, hsaved, harguments, List.append_assoc]
  rfl

/-- The rows of the closed form go down from row to row. -/
lemma Procedure.isChain_frameRows {names : List (String × ValueShape)}
    {signature : String → Option (List Formal)} {q : Procedure} {size : String → Nat}
    (hfits : (q.frameBytes names signature : Int) ≤ Word.max)
    (hsize : ∀ v ∈ q.locals, size v.name = v.decl.bytes names) (sp : Int) :
    (placedRows (sp + q.frameBytes names signature) sp (q.frameRows names signature).rows).IsChain
      (Under size) := by
  have hword : Word.size = 4 := rfl
  have hwords := q.size_mul_div_outgoingBytes signature
  have hframe : q.frameBytes names signature =
      q.localBytes names + q.outgoingBytes signature + 2 * Word.size := rfl
  rw [hframe] at hfits ⊢
  generalize hfp : sp + (q.localBytes names + q.outgoingBytes signature + 2 * Word.size : Nat) = fp
  rw [FrameRows.placedRows_rows _ _ _ (by dsimp only [frameRows]; push_cast at hfits ⊢; omega)]
  refine List.isChain_split.mpr ⟨?_, isChain_depths (by simp) ?_ hsize fun y hy => ?_⟩
  · have hup : ((.frameTop, fp) :: placedRows fp sp ((heightsFrom 0 q.parameters).map fun x =>
        .parameter x.1 (some x.2) (some x.2))).IsChain fun x y => Under size y x :=
      isChain_heights (by simp) fun htakes => htakes.elim
    rw [← List.isChain_reverse, List.reverse_cons] at hup
    unfold placedRows at hup ⊢
    rw [frameRows, List.map_reverse, List.filterMap_reverse]
    exact hup
  · unfold localBytes at hfits
    push_cast at hfits ⊢
    omega
  · rw [Nat.zero_add] at hy
    unfold localBytes at hfp
    dsimp only [frameRows]
    unfold localBytes
    generalize q.outgoingBytes signature / Word.size = words at hwords ⊢
    rw [hword] at hwords hfp ⊢
    -- The return address is saved right above the words for outgoing arguments.
    have haddress : fp + -(bytesOf names (q.locals.map LocalVar.decl) + 2 * 4 : Nat) =
        sp + Word.size * words := by
      rw [hword]
      omega
    refine .cons_cons ⟨?_, fun _ => ?_⟩
      (.cons_cons ⟨?_, fun _ => ?_⟩ (isChain_arguments haddress fun z hz =>
        .cons_cons ⟨Int.le_of_eq hz.symm, fun htakes => htakes.elim⟩ (.singleton _)))
    all_goals
      dsimp only
      omega

/-! ### Notes -/

/-- A row that lies somewhere has a note that tells where. -/
lemma PictureRow.exists_note {row : PictureRow} {x : PictureRow × Int}
    (h : row.place? 0 0 = some x) : ∃ a, row.annotation? = some a ∧ row.note = a.text := by
  obtain ⟨a, ha, -⟩ := Option.map_eq_some_iff.mp h
  exact ⟨a, ha, note_eq ha⟩

/-- The rows for outgoing arguments. -/
lemma mem_argumentRows {row : PictureRow} {n : Nat} (h : row ∈ argumentRows n) :
    ∃ number, row = .argument number := by
  induction n with
  | zero => cases h
  | succ n ih =>
    rcases List.mem_cons.mp h with rfl | h
    · exact ⟨_, rfl⟩
    · exact ih h

/-- Every row of a picture tells where it lies, if it does not only divide the picture. -/
lemma FrameRows.exists_note {f : FrameRows} (hlocals : ∀ x ∈ f.locals, (x.2 : Int) ≤ Word.max)
    (haddress : (f.returnAddress : Int) ≤ Word.max) {row : PictureRow} (h : row ∈ f.rows) :
    (∃ a, row.annotation? = some a ∧ row.note = a.text) ∨
      row = .beyond ∨ row = .rule ∨ row = .outgoing := by
  have hword : ∀ n : Nat, (n : Int) ≤ Word.max → Word.min < -(n : Int) := by
    unfold Word.min Word.max
    omega
  unfold rows at h
  simp only [List.mem_append, List.mem_cons, List.not_mem_nil, or_false, List.mem_map] at h
  rcases h with (((((rfl | ⟨x, -, rfl⟩) | rfl) | h) | rfl | rfl) | h) | rfl | rfl
  · exact .inr (.inl rfl)
  · exact .inl (PictureRow.exists_note
      (PictureRow.place?_parameter (Int.natCast_nonneg _)))
  · exact .inl ⟨_, rfl, rfl⟩
  · split at h
    · cases h
    · rcases List.mem_append.mp h with h | h
      · obtain ⟨x, hx, rfl⟩ := List.mem_map.mp h
        exact .inl (PictureRow.exists_note
          (PictureRow.place?_localVar (hword _ (hlocals x hx)) (by omega)))
      · exact .inr (.inr (.inl (List.mem_singleton.mp h)))
  · exact .inl (PictureRow.exists_note
      (PictureRow.place?_oldFramePointer (Int.natCast_nonneg _)))
  · exact .inl (PictureRow.exists_note
      (PictureRow.place?_oldReturnAddress (hword _ haddress) (by omega)))
  · split at h
    · cases h
    · rcases List.mem_cons.mp h with rfl | h
      · exact .inr (.inr (.inr rfl))
      · obtain ⟨number, rfl⟩ := mem_argumentRows h
        exact .inl ⟨_, rfl, rfl⟩
  · exact .inl ⟨_, rfl, rfl⟩
  · exact .inr (.inl rfl)

/-! ### Programs -/

/-- The picture of a frame that is laid out is the frame. -/
lemma Procedure.Framed.pictured {names : List (String × ValueShape)}
    {signature : String → Option (List Formal)} {q : Procedure} {t : Tables} {e : ProcedureEntry}
    (h : q.Framed names signature t e) (hdeclares : t.Declares names q e)
    (hwf : t.types.WellFormed) (hfits : (q.frameBytes names signature : Int) ≤ Word.max) :
    q.Pictured t e (q.frameBytes names signature) := by
  have hrows := h.picture_eq hfits
  obtain ⟨area, harea, hsize⟩ := q.frameLayout_outgoing names signature
  refine ⟨⟨q.frameRows names signature, hrows, ?_, ?_, ?_, ?_, area, by rw [h.layout, harea], ?_⟩, ?_,
    fun sp => ?_⟩
  · rw [frameRows, List.map_reverse, map_fst_heightsFrom]
    exact List.reverse_perm _
  · rw [frameRows, map_fst_depthsFrom]
  · have hnodup := hdeclares.nodup
    unfold decls at hnodup
    rwa [List.map_append, List.map_map, List.map_map] at hnodup
  · rw [frameRows, List.getLast?_reverse]
    cases q.parameters with
    | nil => exact fun x hx => by cases hx
    | cons y rest =>
      intro x hx
      cases hx
      rfl
  · rw [hsize, frameRows, ← Int.natCast_mul, q.size_mul_div_outgoingBytes signature]
  · rw [hrows]
    unfold frameBytes at hfits
    push_cast at hfits
    refine fun row => FrameRows.exists_note (fun x hx => ?_) (by dsimp only [frameRows]; omega)
    have hdepth := (bounds_of_mem_depthsFrom hx).2
    unfold localBytes at hfits
    omega
  · rw [hrows]
    exact isChain_frameRows hfits (fun v hv => Framed.variableBytes_eq hdeclares hwf hv) sp

/-- The picture of every procedure's frame is the frame, if the program is declared, checked and laid
out. -/
theorem Program.picture_frame (p : Program) (declared allocated : Tables) (types : Annotations)
    (hdeclared : p.declare.runOn .predefined = (.ok (), declared))
    (hchecked : p.check declared = .ok types)
    (hallocated : p.allocate.runOn declared = (.ok (), allocated)) :
    ∀ q ∈ p.procedures, ∃ e size, allocated.procedure? q.name = some e ∧
      e.layout.frameSize = some size ∧ q.Pictured allocated e size := by
  have hbelong := (declare_belongTo p).of_ok hdeclared
  obtain ⟨-, htyped⟩ := wellTyped_of_check hchecked
  obtain ⟨herase, hruntime, hlaysOut⟩ := (allocate_ends hbelong htyped).of_ok hallocated
  have hlaidOut : allocated.LaidOut p := ⟨hbelong.of_erase herase.symm, hruntime, hlaysOut⟩
  intro q hq
  obtain ⟨e, hlaysOut⟩ := hlaidOut.procedures q hq
  have hdeclares := hlaidOut.belongTo.declares hq hlaysOut.bound
  obtain ⟨e', hframed⟩ := hlaidOut.exists_framed hq
  have hentry := hframed.entry
  rw [Tables.procedure?_eq_some.mpr hlaysOut.bound] at hentry
  cases hentry
  obtain ⟨hsize, -⟩ := hlaidOut.layout_eq hlaysOut
  obtain ⟨area, -, harea, -⟩ := hlaysOut.outgoing
  have hfits := ((FrameLayout.frameSize_eq_some hlaysOut.locals harea).mp hsize).2.2.2
  exact ⟨e, _, hframed.entry, hsize,
    hframed.pictured hdeclares hlaidOut.belongTo.wellFormed hfits⟩

/-- The pictures of the counting program, which has a parameter, an array, and outgoing arguments. -/
theorem Program.picture_frame_countdown : ∃ types allocated,
    (ofDefinitions countdown).declare.runOn .predefined = (.ok (), countdownTables) ∧
      (ofDefinitions countdown).check countdownTables = .ok types ∧
      (ofDefinitions countdown).allocate.runOn countdownTables = (.ok (), allocated) ∧
      ∀ q ∈ (ofDefinitions countdown).procedures, ∃ e size, allocated.procedure? q.name = some e ∧
        e.layout.frameSize = some size ∧ q.Pictured allocated e size := by
  obtain ⟨types, htypes⟩ := exists_countdown_checked
  obtain ⟨allocated, hallocated⟩ := exists_countdown_allocated
  exact ⟨types, allocated, countdown_declared, htypes, hallocated,
    picture_frame _ _ _ _ countdown_declared htypes hallocated⟩

end TreeCompiler
