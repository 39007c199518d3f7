import TreeCompiler.Proofs.Frame.Placement
import TreeCompiler.Proofs.Pass

/-!
# Placing the variables of a procedure

The variables of a declared procedure get their places, unless its arguments or its local variables
alone take more bytes than a word can tell (`Procedure.allocateVariables_ends`).  Nothing but places
and layouts changes.  Where placing them stops (`Procedure.Stopped`), the variables before that have
got their places all the same.
-/

namespace TreeCompiler

variable {names : List (String × ValueShape)} {procedures : List Procedure} {t t' : Tables}
  {id j : ScopeId} {name n : String}

/-! ### Bindings under changes of places and layouts -/

namespace Tables

/-- The variable that gets a place. -/
lemma binding?_setOffset_self {slot : Slot} {offset : Int}
    (h : t.binding? id name = some (.var slot)) : (t.setOffset id name offset).binding? id name =
      some (.var { slot with offset := some offset }) := by
  unfold setOffset
  rw [binding?_modifyEntry, if_pos ⟨rfl, rfl⟩, h]
  rfl

/-- Everything but the variable that gets a place. -/
lemma binding?_setOffset_of_ne {offset : Int} (h : j ≠ id ∨ n ≠ name) :
    (t.setOffset id name offset).binding? j n = t.binding? j n := by
  unfold setOffset
  rw [binding?_modifyEntry, if_neg (by rintro ⟨hj, hn⟩; exact h.elim (· hj) (· hn))]

/-- The procedure that changes. -/
lemma binding?_modifyProcedure_self {e : ProcedureEntry} {f : ProcedureEntry → ProcedureEntry}
    (h : t.binding? .global name = some (.procedure e)) :
    (t.modifyProcedure name f).binding? .global name = some (.procedure (f e)) := by
  unfold modifyProcedure
  rw [binding?_modifyEntry, if_pos ⟨rfl, rfl⟩, h]
  rfl

/-- Everything but the procedure that changes. -/
lemma binding?_modifyProcedure_of_ne {f : ProcedureEntry → ProcedureEntry}
    (h : j ≠ .global ∨ n ≠ name) : (t.modifyProcedure name f).binding? j n = t.binding? j n := by
  unfold modifyProcedure
  rw [binding?_modifyEntry, if_neg (by rintro ⟨hj, hn⟩; exact h.elim (· hj) (· hn))]

/-- Two tables differ in the places of some variables of a scope at most. -/
structure AgreeOutside (t t' : Tables) (id : ScopeId) (names : List String) : Prop where
  erase : t'.erase = t.erase
  binding : ∀ j n, j ≠ id ∨ n ∉ names → t'.binding? j n = t.binding? j n

/-- Tables agree with themselves. -/
lemma AgreeOutside.refl {l : List String} : t.AgreeOutside t id l := ⟨rfl, fun _ _ _ => rfl⟩

/-- Two changes in a row. -/
lemma AgreeOutside.trans {t'' : Tables} {l l' : List String} (h : t.AgreeOutside t' id l)
    (h' : t'.AgreeOutside t'' id l') : t.AgreeOutside t'' id (l ++ l') := by
  refine ⟨h'.erase.trans h.erase, fun j n hn => ?_⟩
  rw [List.mem_append, not_or] at hn
  rw [h'.binding j n (hn.imp_right And.right), h.binding j n (hn.imp_right And.left)]

/-- Giving a place to a variable. -/
lemma agreeOutside_setOffset {offset : Int} :
    t.AgreeOutside (t.setOffset id name offset) id [name] := by
  refine ⟨erase_setOffset, fun j n hn => binding?_setOffset_of_ne ?_⟩
  rwa [List.mem_singleton] at hn

/-- Changing the layout of a procedure. -/
lemma agreeOutside_modifyProcedure {f : ProcedureEntry → ProcedureEntry}
    (hf : ∀ p, (f p).erase = p.erase) : t.AgreeOutside (t.modifyProcedure name f) .global [name] := by
  refine ⟨erase_modifyProcedure fun p _ => hf p, fun j n hn => binding?_modifyProcedure_of_ne ?_⟩
  rwa [List.mem_singleton] at hn

/-- A place that is known stays where tables agree. -/
lemma Places.agree {l : List String} {d : VariableDecl} {offset : Int}
    (h : t.Places j d offset) (hagree : t.AgreeOutside t' id l) (hd : j ≠ id ∨ d.name ∉ l) :
    t'.Places j d offset := by
  obtain ⟨slot, hslot, hoffset⟩ := h
  exact ⟨slot, (hagree.binding j d.name hd).trans hslot, hoffset⟩

/-- Places that are known stay where tables agree. -/
lemma forall₂_places_agree {l : List String} {ds : List VariableDecl} {offsets : List Int}
    (h : List.Forall₂ (t.Places j) ds offsets) (hagree : t.AgreeOutside t' id l)
    (hds : j ≠ id ∨ ∀ d ∈ ds, d.name ∉ l) : List.Forall₂ (t'.Places j) ds offsets := by
  induction h with
  | nil => exact .nil
  | cons hd _ ih =>
    refine .cons (hd.agree hagree ?_) (ih ?_)
    · exact hds.imp_right fun hds => hds _ List.mem_cons_self
    · exact hds.imp_right fun hds d' hd' => hds d' (List.mem_cons_of_mem _ hd')

end Tables

/-! ### Arguments -/

/-- Changes of a procedure's entry that give its parameters new places and its frame a new size of
the argument area, if that fits. -/
lemma allocateArguments_ends {e : ProcedureEntry} (he : t.binding? .global name = some (.procedure e))
    (hsizes : ∀ s ∈ e.parameters, s.passingSize t.types = Word.size) :
    (allocateArguments name).Ends t
      (fun offsets t' => offsets = wordsFrom 0 e.parameters.length ∧
        t'.erase = t.erase ∧ (∀ j n, j ≠ .global ∨ n ≠ name → t'.binding? j n = t.binding? j n) ∧
        (∃ e', t'.binding? .global name = some (.procedure e') ∧ e'.PlacesArguments) ∧
        (Word.size * e.parameters.length : Int) ≤ Word.max)
      (fun cause t' => cause = .frameTooLarge name ∧
        Word.max < (Word.size * e.parameters.length : Int) ∧
        ∀ j n, j ≠ .global → t'.binding? j n = t.binding? j n) := by
  have hfits := placeParameters_eq_none_iff hsizes (Int.le_refl 0) (by decide)
  rw [Int.zero_add] at hfits
  unfold allocateArguments
  rw [Step.ends_bind, Step.ends_get, Tables.procedure?_eq_some.mpr he]
  dsimp only
  rcases hplaced : placeParameters t.types 0 e.parameters with ⟨placed, stop⟩
  rw [hplaced] at hfits
  cases stop with
  | none =>
    exact ⟨rfl, hfits.mp rfl, fun j n hj => Tables.binding?_modifyProcedure_of_ne (.inl hj)⟩
  | some size =>
    obtain ⟨herase, hoffsets, hsize⟩ := placeParameters_spec hsizes hplaced
    rw [Int.zero_add] at hsize
    have hlength : placed.length = e.parameters.length := by
      rw [← List.length_map Slot.erase, herase, List.length_map]
    rw [Step.ends_bind, Step.ends_set, Step.ends_pure]
    refine ⟨filterMap_offset hoffsets, ?_, fun j n hn => Tables.binding?_modifyProcedure_of_ne hn, ?_,
      Int.not_lt.mp (hfits.not.mp (Option.some_ne_none _))⟩
    · refine Tables.erase_modifyProcedure fun p hp => ?_
      rw [he] at hp
      cases hp
      unfold ProcedureEntry.erase
      rw [herase]
    · refine ⟨_, Tables.binding?_modifyProcedure_self he, ?_, ?_⟩
      · dsimp only
        rw [hoffsets, hlength]
      · dsimp only
        rw [hsize, hlength]

/-! ### Variables -/

/-- The scope binds all the variables of a list, each to a slot for it. -/
def Tables.Knows (names : List (String × ValueShape)) (t : Tables) (id : ScopeId)
    (l : List VariableDecl) : Prop :=
  ∀ d ∈ l, ∃ slot, t.binding? id d.name = some (.var slot) ∧ slot.Holds names t.types d

/-- A scope knows its variables whatever their places are. -/
lemma Tables.Knows.of_erase {l : List VariableDecl} (h : t.Knows names id l)
    (herase : t'.erase = t.erase) : t'.Knows names id l := by
  intro d hd
  obtain ⟨slot, hslot, hholds⟩ := h d hd
  obtain ⟨e, he, hentry⟩ := Tables.binding?_of_erase herase hslot
  obtain ⟨slot', rfl, hslot'⟩ := Entry.erase_eq_var hentry
  rw [Tables.types_eq_of_erase herase]
  exact ⟨slot', he, Slot.holds_of_erase hslot'.symm hholds⟩

/-- A variable that the scope knows is found there. -/
lemma ownVariable_ends {procedure : String} {slot : Slot}
    {bad : FrameError → Tables → Prop} (h : t.binding? id name = some (.var slot)) :
    (ownVariable procedure id name).Ends t (fun s t' => s = slot ∧ t' = t) bad := by
  unfold ownVariable
  rw [Step.ends_bind, Step.ends_get, Tables.findVar?_eq_some.mpr h]
  exact ⟨rfl, rfl⟩

/-- The variables of parameters get the offsets that are listed, and nothing else changes. -/
lemma setOffsets_ends {procedure : String} {l : List Parameter} {offsets : List Int}
    {bad : FrameError → Tables → Prop} (hlength : l.length = offsets.length)
    (hknows : t.Knows names id (l.map Parameter.decl)) (hnodup : (l.map Parameter.name).Nodup) :
    (setOffsets procedure id l offsets).Ends t
      (fun _ t' => t.AgreeOutside t' id (l.map Parameter.name) ∧
        List.Forall₂ (t'.Places id) (l.map Parameter.decl) offsets) bad := by
  induction l generalizing t offsets with
  | nil =>
    cases offsets with
    | nil => exact ⟨.refl, .nil⟩
    | cons => cases hlength
  | cons p rest ih =>
    cases offsets with
    | nil => cases hlength
    | cons offset offsets =>
      rw [List.map_cons, List.nodup_cons] at hnodup
      obtain ⟨slot, hslot, -⟩ := hknows p.decl List.mem_cons_self
      rw [setOffsets, Step.ends_bind]
      refine (ownVariable_ends hslot).mono (fun _ t₁ h₁ => ?_) fun _ _ h => h
      obtain ⟨-, rfl⟩ := h₁
      rw [Step.ends_bind, Step.ends_modify]
      have hset : t₁.AgreeOutside (t₁.setOffset id p.name offset) id [p.name] :=
        Tables.agreeOutside_setOffset
      have hrest : t₁.Knows names id (rest.map Parameter.decl) :=
        fun d hd => hknows d (List.mem_cons_of_mem _ hd)
      refine (ih (Nat.succ.inj hlength) (hrest.of_erase hset.erase) hnodup.2).mono (fun _ t₂ h₂ => ?_)
        fun _ _ h => h
      obtain ⟨hagree, hplaces⟩ := h₂
      refine ⟨hset.trans hagree, .cons ?_ hplaces⟩
      have hplaced : (t₁.setOffset id p.name offset).Places id p.decl offset :=
        ⟨_, Tables.binding?_setOffset_self hslot, rfl⟩
      exact hplaced.agree hagree (.inr hnodup.1)

/-- Local variables have got their places, one below the other from an offset on, none of them beyond
the smallest word, and nothing else has changed. -/
structure Tables.PlacedBelow (names : List (String × ValueShape)) (t t' : Tables) (id : ScopeId)
    (offset : Int) (l : List LocalVar) : Prop where
  agree : t.AgreeOutside t' id (l.map LocalVar.name)
  places : List.Forall₂ (t'.Places id) (l.map LocalVar.decl)
    (offsetsBelow names offset (l.map LocalVar.decl))
  fits : Word.min ≤ offset - bytesOf names (l.map LocalVar.decl)

/-- The bytes of local variables are those of the first one and of the others. -/
lemma bytesOf_cons (v : LocalVar) (rest : List LocalVar) :
    bytesOf names ((v :: rest).map LocalVar.decl) =
      v.decl.bytes names + bytesOf names (rest.map LocalVar.decl) := List.sum_cons

/-- The first local variables take no more bytes than all of them. -/
lemma bytesOf_take_le (l : List LocalVar) (k : Nat) :
    bytesOf names ((l.take k).map LocalVar.decl) ≤ bytesOf names (l.map LocalVar.decl) := by
  induction l generalizing k with
  | nil => simp
  | cons v rest ih =>
    cases k with
    | zero => exact Nat.zero_le _
    | succ k =>
      rw [List.take_succ_cons, bytesOf_cons, bytesOf_cons]
      exact Nat.add_le_add_left (ih k) _

/-- A local variable gets its place, and then those after it. -/
lemma Tables.PlacedBelow.cons {v : LocalVar} {rest : List LocalVar} {slot : Slot} {offset : Int}
    (hslot : t.binding? id v.name = some (.var slot)) (hfresh : v.name ∉ rest.map LocalVar.name)
    (h : (t.setOffset id v.name (offset - v.decl.bytes names)).PlacedBelow names t' id
      (offset - v.decl.bytes names) rest) :
    t.PlacedBelow names t' id offset (v :: rest) where
  agree := agreeOutside_setOffset.trans h.agree
  places := by
    have hplaced : (t.setOffset id v.name (offset - v.decl.bytes names)).Places id v.decl
        (offset - v.decl.bytes names) := ⟨_, binding?_setOffset_self hslot, rfl⟩
    exact .cons (hplaced.agree h.agree (.inr hfresh)) h.places
  fits := by
    have hfits := h.fits
    rw [bytesOf_cons]
    omega

/-- Local variables are placed one below the other, if they fit, and nothing else changes.  Otherwise
those are placed that come before the first one that does not fit. -/
lemma placeLocals_ends {procedure : String} {l : List LocalVar} {offset : Int}
    (hwf : t.types.WellFormed) (hknows : t.Knows names id (l.map LocalVar.decl))
    (hnodup : (l.map LocalVar.name).Nodup) (hword : Word.min ≤ offset) (hstart : offset ≤ 0) :
    (placeLocals procedure id offset l).Ends t
      (fun lowest t' => t.PlacedBelow names t' id offset l ∧
        lowest = offset - bytesOf names (l.map LocalVar.decl))
      (fun cause t' => cause = .frameTooLarge procedure ∧ ∃ k < l.length,
        t.PlacedBelow names t' id offset (l.take k) ∧
        offset - bytesOf names ((l.take (k + 1)).map LocalVar.decl) < Word.min) := by
  induction l generalizing t offset with
  | nil => exact ⟨⟨.refl, .nil, by simpa [bytesOf] using hword⟩, by simp [bytesOf]⟩
  | cons v rest ih =>
    rw [List.map_cons, List.nodup_cons] at hnodup
    obtain ⟨slot, hslot, hholds⟩ := hknows v.decl List.mem_cons_self
    rw [placeLocals, Step.ends_bind]
    refine (ownVariable_ends hslot).mono (fun _ t₁ h₁ => ?_) fun _ _ h => h
    obtain ⟨rfl, rfl⟩ := h₁
    rw [Step.ends_bind, Step.ends_get, hholds.byteSize_eq hwf]
    split
    · rename_i hnone
      have hlarge := Word.check_eq_none_iff.mp hnone
      rw [Word.max] at hlarge
      refine ⟨rfl, 0, Nat.zero_lt_succ _, ⟨.refl, .nil, by simpa [bytesOf] using hword⟩, ?_⟩
      rw [List.take_succ_cons, bytesOf_cons, List.take_zero, List.map_nil, bytesOf]
      simp only [List.map_nil, List.sum_nil, Nat.add_zero]
      omega
    · rename_i next hnext
      obtain ⟨rfl, hmin, -⟩ := Word.check_eq_some_iff.mp hnext
      rw [Step.ends_bind, Step.ends_modify]
      have hset : t₁.AgreeOutside (t₁.setOffset id v.name (offset - v.decl.bytes names)) id
          [v.name] := Tables.agreeOutside_setOffset
      have hrest : t₁.Knows names id (rest.map LocalVar.decl) :=
        fun d hd => hknows d (List.mem_cons_of_mem _ hd)
      have hwf' : (t₁.setOffset id v.name (offset - v.decl.bytes names)).types.WellFormed := by
        rw [Tables.types_eq_of_erase hset.erase]
        exact hwf
      refine (ih hwf' (hrest.of_erase hset.erase) hnodup.2 hmin (by omega)).mono
        (fun lowest t₂ h₂ => ⟨.cons hslot hnodup.1 h₂.1, ?_⟩) fun cause t₂ h₂ => ?_
      · rw [h₂.2, bytesOf_cons]
        omega
      · obtain ⟨hcause, k, hk, hplaced, hnext⟩ := h₂
        refine ⟨hcause, k + 1, Nat.succ_lt_succ hk, .cons hslot (fun hmem => hnodup.1 ?_) hplaced, ?_⟩
        · exact ((List.take_sublist k rest).map LocalVar.name).subset hmem
        · rw [List.take_succ_cons, bytesOf_cons]
          omega

/-- The offsets that a procedure lists are those of its parameters' variables. -/
lemma checkOffsets_eq_ok {procedure : String} {l : List Parameter} {slots : List Slot}
    {offsets : List Int} (hslots : slots.map Slot.offset = offsets.map some)
    (hplaces : List.Forall₂ (t.Places id) (l.map Parameter.decl) offsets) :
    checkOffsets procedure (t.scope id) l slots = .ok () := by
  induction l generalizing slots offsets with
  | nil => rfl
  | cons p rest ih =>
    obtain ⟨offset, offsets, ⟨slot, hslot, hoffset⟩, hrest, rfl⟩ :=
      List.forall₂_cons_left_iff.mp hplaces
    cases slots with
    | nil => rfl
    | cons s slots =>
      rw [List.map_cons, List.map_cons, List.cons.injEq] at hslots
      have hfound : (t.scope id).findVar? p.name = some slot := Tables.findVar?_eq_some.mpr hslot
      have hown : ((t.scope id).findVar? p.name).bind Slot.offset = s.offset := by
        rw [hfound, hslots.1]
        exact hoffset
      rw [checkOffsets, hown, if_neg (fun hne => hne rfl)]
      exact ih hslots.2 hrest

/-- The variables of a procedure have their places, and the sizes that follow from them are
known. -/
structure Tables.PlacesVariables (names : List (String × ValueShape)) (t : Tables) (q : Procedure)
    (e : ProcedureEntry) : Prop where
  bound : t.binding? .global q.name = some (.procedure e)
  arguments : e.PlacesArguments
  locals : e.layout.locals = some (q.localBytes names : Int)
  places : List.Forall₂ (t.Places e.scope) q.decls (q.offsets names)

/-- Once the variables of a procedure have their places, the size of its local area is noted. -/
lemma Tables.placesVariables_modifyProcedure {q : Procedure} {e : ProcedureEntry}
    (hbound : t.binding? .global q.name = some (.procedure e)) (hinside : e.scope ≠ .global)
    (harguments : e.PlacesArguments)
    (hplaces : List.Forall₂ (t.Places e.scope) q.decls (q.offsets names)) :
    (t.modifyProcedure q.name fun p => { p with
      layout := { p.layout with locals := some (q.localBytes names : Int) } }).PlacesVariables names q
      { e with layout := { e.layout with locals := some (q.localBytes names : Int) } } where
  bound := binding?_modifyProcedure_self hbound
  arguments := harguments
  locals := rfl
  places := forall₂_places_agree hplaces (agreeOutside_modifyProcedure fun _ => rfl) (.inl hinside)

/-- The scope of a declared procedure knows the procedure's variables. -/
lemma Tables.Declares.knows {q : Procedure} {e : ProcedureEntry} (h : t.Declares names q e) :
    t.Knows names e.scope q.decls := by
  intro d hd
  obtain ⟨symbols, hscope, hsymbols⟩ := h.symbols
  unfold Tables.binding?
  rw [Tables.scope_of_scope? hscope]
  exact Scope.exists_find?_of_declares hsymbols h.nodup hd

/-- As many parameters are listed as are declared. -/
lemma Tables.Declares.length_parameters {q : Procedure} {e : ProcedureEntry}
    (h : t.Declares names q e) : e.parameters.length = q.parameters.length := by
  rw [h.parameters.length_eq, List.length_map]

/-- Why the variables of a procedure cannot get their places: its arguments or its local variables are
too large. -/
def Procedure.variablesFault? (names : List (String × ValueShape)) (q : Procedure) :
    Option FrameError :=
  if (Word.size * q.parameters.length : Int) ≤ Word.max ∧ (q.localBytes names : Int) ≤ Word.max then
    none
  else some (.frameTooLarge q.name)

/-- The variables of a procedure can get their places if its arguments and its local variables fit. -/
lemma Procedure.variablesFault?_eq_none {q : Procedure} : q.variablesFault? names = none ↔
    (Word.size * q.parameters.length : Int) ≤ Word.max ∧ (q.localBytes names : Int) ≤ Word.max := by
  unfold variablesFault?
  split <;> simp [*]

/-- The variables of a procedure cannot get their places if its arguments or its local variables do not
fit. -/
lemma Procedure.variablesFault?_eq_some {q : Procedure} {cause : FrameError} :
    q.variablesFault? names = some cause ↔ cause = .frameTooLarge q.name ∧
      ¬((Word.size * q.parameters.length : Int) ≤ Word.max ∧
        (q.localBytes names : Int) ≤ Word.max) := by
  unfold variablesFault?
  split
  · simp [*]
  · simp [*, eq_comm]

/-- The variables of a procedure have got their places up to the first `k` local variables, none of
which lies beyond the smallest word, and no other variable has changed. -/
structure Procedure.PlacedUpTo (names : List (String × ValueShape)) (t t' : Tables) (id : ScopeId)
    (q : Procedure) (k : Nat) : Prop where
  others : ∀ j n, j ≠ .global →
    j ≠ id ∨ n ∉ q.parameters.map Parameter.name ++ (q.locals.take k).map LocalVar.name →
      t'.binding? j n = t.binding? j n
  parameters : List.Forall₂ (t'.Places id) (q.parameters.map Parameter.decl)
    (wordsFrom 0 q.parameters.length)
  locals : List.Forall₂ (t'.Places id) ((q.locals.take k).map LocalVar.decl)
    (offsetsBelow names 0 ((q.locals.take k).map LocalVar.decl))
  fits : Word.min ≤ -(bytesOf names ((q.locals.take k).map LocalVar.decl) : Int)

/-- Placing the variables of a procedure has stopped, either because the arguments do not fit, and then
no variable has changed, or after the first `k` local variables, because the next one does not fit or
because the size of all of them does not. -/
def Procedure.Stopped (names : List (String × ValueShape)) (t t' : Tables) (id : ScopeId)
    (q : Procedure) : Prop :=
  (Word.max < (Word.size * q.parameters.length : Int) ∧
      ∀ j n, j ≠ .global → t'.binding? j n = t.binding? j n) ∨
    ((Word.size * q.parameters.length : Int) ≤ Word.max ∧ ∃ k, q.PlacedUpTo names t t' id k ∧
      ((k < q.locals.length ∧
          -(bytesOf names ((q.locals.take (k + 1)).map LocalVar.decl) : Int) < Word.min) ∨
        (k = q.locals.length ∧ Word.max < (q.localBytes names : Int))))

/-- The parameters of a procedure have got their places, and then the first `k` local variables. -/
lemma Procedure.placedUpTo {t'' : Tables} {q : Procedure} {k : Nat}
    (hnodup : (q.decls.map VariableDecl.name).Nodup)
    (hagree : t.AgreeOutside t' id (q.parameters.map Parameter.name))
    (hparameters : List.Forall₂ (t'.Places id) (q.parameters.map Parameter.decl)
      (wordsFrom 0 q.parameters.length))
    (hlocals : t'.PlacedBelow names t'' id 0 (q.locals.take k)) : q.PlacedUpTo names t t'' id k where
  others j n _ hn := (hagree.trans hlocals.agree).binding j n hn
  parameters := by
    unfold decls at hnodup
    rw [List.map_append, List.map_map, List.map_map] at hnodup
    refine Tables.forall₂_places_agree hparameters hlocals.agree <| .inr fun d hd hmem => ?_
    obtain ⟨p, hp, rfl⟩ := List.mem_map.mp hd
    exact (List.nodup_append.mp hnodup).2.2 _ (List.mem_map_of_mem hp) _
      (((List.take_sublist k q.locals).map LocalVar.name).subset hmem) rfl
  locals := hlocals.places
  fits := by
    have hfits := hlocals.fits
    omega

/-- The variables of a procedure that its scope knows get their places if the local variables fit, and
nothing else changes.  Otherwise the first of them do. -/
lemma Procedure.placeVariables_ends {q : Procedure} (hwf : t.types.WellFormed)
    (hknows : t.Knows names id q.decls) (hnodup : (q.decls.map VariableDecl.name).Nodup) :
    (setOffsets q.name id q.parameters (wordsFrom 0 q.parameters.length) >>= fun _ =>
      placeLocals q.name id 0 q.locals).Ends t
      (fun lowest t' => t.AgreeOutside t' id (q.decls.map VariableDecl.name) ∧
        q.PlacedUpTo names t t' id q.locals.length ∧ lowest = -(q.localBytes names : Int))
      (fun cause t' => cause = .frameTooLarge q.name ∧ ∃ k < q.locals.length,
        q.PlacedUpTo names t t' id k ∧
        -(bytesOf names ((q.locals.take (k + 1)).map LocalVar.decl) : Int) < Word.min) := by
  have hnames : q.decls.map VariableDecl.name =
      q.parameters.map Parameter.name ++ q.locals.map LocalVar.name := by
    unfold decls
    rw [List.map_append, List.map_map, List.map_map]
    rfl
  obtain ⟨hnodupParameters, hnodupLocals, -⟩ := List.nodup_append.mp (hnames ▸ hnodup)
  rw [Step.ends_bind]
  refine (setOffsets_ends length_wordsFrom.symm (fun d hd => hknows d (List.mem_append_left _ hd))
    hnodupParameters).mono (fun _ t₁ h₁ => ?_) fun _ _ h => h
  obtain ⟨hagree₁, hparameters⟩ := h₁
  have hwf₁ : t₁.types.WellFormed := by
    rw [Tables.types_eq_of_erase hagree₁.erase]
    exact hwf
  have hknows₁ := hknows.of_erase hagree₁.erase
  refine (placeLocals_ends hwf₁ (fun d hd => hknows₁ d (List.mem_append_right _ hd)) hnodupLocals
    (by decide) (Int.le_refl 0)).mono (fun lowest t₂ h₂ => ?_) fun cause t₂ h₂ => ?_
  · obtain ⟨hplaced, hlowest⟩ := h₂
    refine ⟨hnames ▸ hagree₁.trans hplaced.agree, ?_, hlowest.trans (Int.zero_sub _)⟩
    rw [← List.take_length (l := q.locals)] at hplaced
    exact placedUpTo hnodup hagree₁ hparameters hplaced
  · obtain ⟨hcause, k, hk, hplaced, hnext⟩ := h₂
    exact ⟨hcause, k, hk, placedUpTo hnodup hagree₁ hparameters hplaced,
      lt_of_eq_of_lt (Int.zero_sub _).symm hnext⟩

/-- All variables of a procedure have their places when all its local variables do. -/
lemma Procedure.PlacedUpTo.places {q : Procedure}
    (h : q.PlacedUpTo names t t' id q.locals.length) :
    List.Forall₂ (t'.Places id) q.decls (q.offsets names) := by
  have hlocals := h.locals
  rw [List.take_length] at hlocals
  exact List.rel_append h.parameters hlocals

/-- Placing the variables of a procedure stops only if its arguments or its local variables are too
large. -/
lemma Procedure.Stopped.fault {q : Procedure} (h : q.Stopped names t t' id) :
    q.variablesFault? names = some (.frameTooLarge q.name) := by
  refine variablesFault?_eq_some.mpr ⟨rfl, fun hfits => ?_⟩
  rcases h with ⟨hlarge, -⟩ | ⟨-, k, -, ⟨-, hlarge⟩ | ⟨-, hlarge⟩⟩
  · exact absurd hfits.1 (Int.not_le.mpr hlarge)
  · have hle := @bytesOf_take_le names q.locals (k + 1)
    have hlocals := hfits.2
    unfold localBytes Word.max at hlocals
    unfold Word.min at hlarge
    omega
  · exact absurd hfits.2 (Int.not_le.mpr hlarge)

/-- What has been placed after the arguments of a procedure were listed. -/
lemma Procedure.PlacedUpTo.after {q : Procedure} {t₁ : Tables} {k : Nat}
    (h : q.PlacedUpTo names t₁ t' id k)
    (hsame : ∀ j n, j ≠ .global → t₁.binding? j n = t.binding? j n) :
    q.PlacedUpTo names t t' id k where
  others j n hj hn := (h.others j n hj hn).trans (hsame j n hj)
  parameters := h.parameters
  locals := h.locals
  fits := h.fits

/-- The variables of a declared procedure get their places, unless its arguments or its local variables
are too large; then the first of them may have got theirs. -/
lemma Procedure.allocateVariables_ends {q : Procedure} {e : ProcedureEntry}
    (hwf : t.types.WellFormed) (he : t.Declares names q e) (hinside : e.scope ≠ .global) :
    q.allocateVariables.Ends t
      (fun _ t' => q.variablesFault? names = none ∧ t'.erase = t.erase ∧
        (∀ j n, j ≠ e.scope → j ≠ .global ∨ n ≠ q.name → t'.binding? j n = t.binding? j n) ∧
        ∃ e', t'.PlacesVariables names q e')
      (fun cause t' => cause = .frameTooLarge q.name ∧ q.Stopped names t t' e.scope) := by
  have hmin : Word.min ≤ 0 := by decide
  unfold allocateVariables
  rw [Step.ends_bind]
  refine (allocateArguments_ends he.bound (he.passingSize_eq hwf)).mono (fun offsets t₁ h₁ => ?_)
    fun _ _ h => ?_
  rotate_left
  · obtain ⟨hcause, hlarge, hsame⟩ := h
    rw [he.length_parameters] at hlarge
    exact ⟨hcause, .inl ⟨hlarge, hsame⟩⟩
  obtain ⟨rfl, herase₁, hframe₁, ⟨e₁, hbound₁, harguments⟩, hargumentsFit⟩ := h₁
  rw [he.length_parameters] at hargumentsFit
  rw [Step.ends_bind, Step.ends_get, Tables.procedure?_eq_some.mpr hbound₁]
  dsimp only
  -- The arguments are placed in the entry; the scope and its variables are still the same.
  obtain ⟨e', herase, hdeclares₁⟩ := he.of_erase herase₁.symm
  have hbound := hdeclares₁.bound
  rw [hbound₁] at hbound
  cases hbound
  have hscope₁ : e₁.scope = e.scope := ProcedureEntry.scope_eq_of_erase herase
  have hwf₁ : t₁.types.WellFormed := by
    rw [Tables.types_eq_of_erase herase₁]
    exact hwf
  have hsame : ∀ j n, j ≠ .global → t₁.binding? j n = t.binding? j n :=
    fun j n hj => hframe₁ j n (.inl hj)
  rw [← hscope₁] at hinside ⊢
  rw [← bind_assoc, Step.ends_bind, he.length_parameters]
  refine (q.placeVariables_ends hwf₁ hdeclares₁.knows hdeclares₁.nodup).mono
    (fun lowest t₂ h₂ => ?_) fun _ _ h => ?_
  rotate_left
  · obtain ⟨hcause, k, hk, hplaced, hnext⟩ := h
    exact ⟨hcause, .inr ⟨hargumentsFit, k, hplaced.after hsame, .inl ⟨hk, hnext⟩⟩⟩
  obtain ⟨hagree₂, hplaced₂, rfl⟩ := h₂
  rw [Int.neg_neg]
  split
  · rename_i hnone
    have hlarge := Word.check_eq_none_iff.mp hnone
    exact ⟨rfl, .inr ⟨hargumentsFit, _, hplaced₂.after hsame, .inr ⟨rfl, by omega⟩⟩⟩
  rename_i size hsize
  obtain ⟨rfl, -, hlocalsFit⟩ := Word.check_eq_some_iff.mp hsize
  -- Placing variables leaves the entry as it is, so that it is still found and only gets a size.
  have hbound₂ : t₂.binding? .global q.name = some (.procedure e₁) := by
    rw [hagree₂.binding _ _ (.inl hinside.symm)]
    exact hbound₁
  rw [Step.ends_bind, Step.ends_modify, Step.ends_bind, Step.ends_get]
  have hplaced := Tables.placesVariables_modifyProcedure hbound₂ hinside harguments hplaced₂.places
  set t₃ := t₂.modifyProcedure q.name fun p =>
    { p with layout := { p.layout with locals := some (q.localBytes names : Int) } }
  have hagree₃ : t₂.AgreeOutside t₃ .global [q.name] :=
    Tables.agreeOutside_modifyProcedure fun _ => rfl
  rw [Tables.procedure?_eq_some.mpr hplaced.bound]
  dsimp only
  have hslots := harguments.1
  rw [hdeclares₁.length_parameters] at hslots
  have hlength : (q.parameters.map Parameter.decl).length =
      (wordsFrom 0 q.parameters.length).length := by
    rw [List.length_map, length_wordsFrom]
  rw [checkOffsets_eq_ok hslots (forall₂_append_of_length hlength hplaced.places).1]
  refine ⟨variablesFault?_eq_none.mpr ⟨hargumentsFit, hlocalsFit⟩,
    hagree₃.erase.trans (hagree₂.erase.trans herase₁), fun j n hj hn => ?_, _, hplaced⟩
  rw [hagree₃.binding j n (by simpa using hn), hagree₂.binding j n (.inl hj)]
  exact hframe₁ j n hn

end TreeCompiler
