import TreeCompiler.Proofs.Meaning.Stack

/-!
# Entering a procedure

When a procedure is entered, its arguments are in the words above its frame pointer: the value, or
the address of what a reference stands for.  An `Invocation` collects what the new frame depends on, and
`Invocation.frame` is the frame: the variables get roles in their words, the frame pointer and the place
in the code of the caller are saved, and the words above the arguments keep the roles that they have
for the caller.  The blocks of the new variables lie where their words are.
-/

namespace TreeCompiler

/-! ### What is passed -/

/-- The word in which an argument is passed. -/
def Passed.bits (origin : Nat → Nat) : Passed → Bits
  | word w => w
  | location l => wordAt (l.word origin)

/-- A parameter takes a word, or a reference the location of a value of its shape. -/
def Formal.Takes (owned : Binding → Prop) (f : Formal) : Passed → Prop
  | .word _ => f.isReference = false
  | .location l => f.isReference = true ∧ owned ⟨f.shape, l⟩

/-- The role of a word that lies in one of several stretches: that of the cell of its stretch. -/
def roleIn (role : Nat → Nat → Role) : List (Nat × Nat) → Nat → Nat → Role
  | [], _, _ => .free
  | s :: rest, k, a =>
    if s.1 ≤ a ∧ a < s.1 + s.2 then role k (a - s.1) else roleIn role rest (k + 1) a

/-- What a new frame depends on: the procedure and what is passed to it, the blocks that there are
and where they lie, the roles of the words so far, the word of the new frame pointer, and what is to
be saved. -/
structure Invocation where
  procedure : Procedure
  passed : List Passed
  blocks : Nat
  origin : Nat → Nat
  roles : Nat → Role
  fp : Nat
  callerFp : Bits
  returnTo : Bits

namespace Invocation

variable (p : Program)

/-- The role of a cell of a variable; the word of a reference holds an address. -/
def role (e : Invocation) (k c : Nat) : Role :=
  match e.passed[k]? with
  | some (.location l) => .saved (wordAt (l.word e.origin))
  | _ => .cell ⟨e.blocks + k, c⟩

/-- Where blocks lie once the procedure is entered. -/
def newOrigin (e : Invocation) (k : Nat) : Nat :=
  if k < e.blocks then e.origin k
  else (((e.procedure.slots p.typeNames e.fp)[k - e.blocks]?).map Prod.fst).getD 0

/-- The frame of a procedure that is entered. -/
def frame (e : Invocation) : Frame where
  procedure := e.procedure
  environment := bindDecls p.typeNames e.procedure.decls e.passed e.blocks
  bottom := e.fp - e.procedure.frameWords p.typeNames p.signature
  roles a :=
    let saves := e.fp - e.procedure.frameWords p.typeNames p.signature +
      e.procedure.outgoingWords p.signature
    if e.fp + e.procedure.parameters.length ≤ a then e.roles a
    else if a = saves + 1 then .saved e.callerFp
    else if a = saves ∧ e.procedure.calls ≠ [] then .saved e.returnTo
    else roleIn e.role (e.procedure.slots p.typeNames e.fp) 0 a
  callerFp := e.callerFp
  returnTo := e.returnTo

/-- There is room for the frame below its frame pointer, the words for the arguments are free for
the caller, and what is passed fits the parameters. -/
structure Sound (top : Nat) (e : Invocation) : Prop where
  member : e.procedure ∈ p.procedures
  room : e.procedure.frameWords p.typeNames p.signature ≤ e.fp
  below : e.fp + e.procedure.parameters.length ≤ top
  free : ∀ a, e.fp ≤ a → a < e.fp + e.procedure.parameters.length → e.roles a = .free
  cells : ∀ a l, e.roles a = .cell l → l.word e.origin = a ∧ l.block < e.blocks
  passed : List.Forall₂ (Formal.Takes (Binding.Owned e.origin e.blocks e.roles e.fp top))
    (e.procedure.formals p.typeNames) e.passed

end Invocation

/-! ### Stretches of words -/

section
variable {role : Nat → Nat → Role} {slots : List (Nat × Nat)}

/-- The role of a word in a stretch, when the stretches are apart. -/
lemma roleIn_of_getElem? (hapart : slots.Pairwise Apart) {i : Nat} {s : Nat × Nat}
    (hs : slots[i]? = some s) {c : Nat} (hc : c < s.2) {k : Nat} :
    roleIn role slots k (s.1 + c) = role (k + i) c := by
  induction slots generalizing i k with
  | nil => cases hs
  | cons s' rest ih =>
    obtain ⟨hfirst, hrest⟩ := List.pairwise_cons.mp hapart
    rw [roleIn]
    cases i with
    | zero =>
      rw [List.getElem?_cons_zero, Option.some.injEq] at hs
      subst hs
      rw [if_pos ⟨Nat.le_add_right _ _, Nat.add_lt_add_left hc _⟩, Nat.add_sub_cancel_left,
        Nat.add_zero]
    | succ i =>
      rw [List.getElem?_cons_succ] at hs
      have houtside : ¬(s'.1 ≤ s.1 + c ∧ s.1 + c < s'.1 + s'.2) := by
        rcases hfirst s (List.mem_of_getElem? hs) with h | h
        · omega
        · omega
      rw [if_neg houtside, ih hrest hs, Nat.add_assoc, Nat.add_comm 1 i]

/-- A word is in one of the stretches, or free. -/
lemma roleIn_cases {a k : Nat} : roleIn role slots k a = .free ∨
    ∃ i s c, slots[i]? = some s ∧ c < s.2 ∧ a = s.1 + c ∧ roleIn role slots k a = role (k + i) c := by
  induction slots generalizing k with
  | nil => exact .inl rfl
  | cons s rest ih =>
    rw [roleIn]
    by_cases h : s.1 ≤ a ∧ a < s.1 + s.2
    · rw [if_pos h]
      exact .inr ⟨0, s, a - s.1, rfl, by omega, by omega, rfl⟩
    · rw [if_neg h]
      rcases ih (k := k + 1) with hfree | ⟨i, s', c, hs, hc, ha, hrole⟩
      · exact .inl hfree
      · refine .inr ⟨i + 1, s', c, hs, hc, ha, ?_⟩
        rw [hrole, Nat.add_assoc, Nat.add_comm 1 i]

end

/-! ### Variables of the new frame -/

section
variable {names : List (String × ValueShape)}

/-- A place that is found belongs to a declared variable. -/
lemma getElem?_of_lookup_places {decls : List VariableDecl} {offsets : List Int} {name : String}
    {place : Place}
    (h : (List.zipWith (VariableDecl.place names) decls offsets).lookup name = some place) :
    ∃ (k : Nat) (d : VariableDecl) (offset : Int), decls[k]? = some d ∧ offsets[k]? = some offset ∧ d.name = name ∧
      place = ⟨(d.type.shape? names).getD .int, d.isReference, offset⟩ := by
  obtain ⟨l, l', hlist, -⟩ := List.lookup_eq_some_iff.mp h
  have hmem : (name, place) ∈ List.zipWith (VariableDecl.place names) decls offsets := by
    rw [hlist]
    simp
  obtain ⟨k, hk⟩ := List.mem_iff_getElem?.mp hmem
  obtain ⟨d, offset, hd, hoffset, heq⟩ := List.getElem?_zipWith_eq_some.mp hk
  cases heq
  exact ⟨k, d, offset, hd, hoffset, rfl, rfl⟩

/-- What a declared variable stands for. -/
lemma lookup_bindDecls {decls : List VariableDecl} (hnodup : (decls.map VariableDecl.name).Nodup)
    {passed : List Passed} {blocks k : Nat} {d : VariableDecl} (hd : decls[k]? = some d) :
    (bindDecls names decls passed blocks).lookup d.name =
      some ⟨(d.type.shape? names).getD .int,
        (passed[k]?.bind Passed.location?).getD ⟨blocks + k, 0⟩⟩ := by
  have hkeys : (bindDecls names decls passed blocks).map Prod.fst = decls.map VariableDecl.name := by
    refine List.ext_getElem? fun j => ?_
    unfold bindDecls
    rw [List.getElem?_map, List.getElem?_mapIdx, List.getElem?_map, Option.map_map]
    rfl
  rw [lookup_eq_some_iff (hkeys ▸ hnodup), List.mem_iff_getElem?]
  refine ⟨k, ?_⟩
  unfold bindDecls
  rw [List.getElem?_mapIdx, hd]
  rfl

/-- A local variable is no reference. -/
lemma Procedure.isReference_eq_false {q : Procedure} {k : Nat} {d : VariableDecl}
    (hd : q.decls[k]? = some d) (hk : q.parameters.length ≤ k) : d.isReference = false := by
  unfold decls at hd
  rw [List.getElem?_append_right (by simpa using hk)] at hd
  obtain ⟨x, -, rfl⟩ := List.mem_map.mp (List.mem_of_getElem? hd)
  rfl

/-- A variable that is no reference has as many words as cells. -/
lemma Procedure.slots_size {p : Program} (hcompilable : p.Compilable) {q : Procedure}
    (hq : q ∈ p.procedures) {fp k : Nat} {d : VariableDecl} (hd : q.decls[k]? = some d)
    (hvalue : d.isReference = false) {s : Nat × Nat}
    (hs : (q.slots p.typeNames fp)[k]? = some s) : s.2 = d.cells p.typeNames := by
  by_cases hk : k < q.parameters.length
  · rw [Procedure.getElem?_slots hk, Option.some.injEq] at hs
    subst hs
    have hmem : d ∈ q.parameters.map Parameter.decl := by
      unfold decls at hd
      rw [List.getElem?_append_left (by simpa using hk)] at hd
      exact List.mem_of_getElem? hd
    obtain ⟨x, hx, rfl⟩ := List.mem_map.mp hmem
    obtain ⟨shape, hshape, -⟩ := hcompilable.shapes q hq _ (List.mem_of_getElem? hd)
    have hscalar := hcompilable.scalar q hq x hx hvalue shape hshape
    unfold VariableDecl.cells
    rw [hshape]
    exact (ValueShape.cells_of_isScalar hscalar).symm
  · unfold decls at hd
    unfold slots at hs
    rw [List.getElem?_append_right (by simpa using hk)] at hd hs
    rw [List.length_map] at hd
    rw [List.length_map, List.length_range'] at hs
    obtain ⟨s', hs', hsize⟩ := forall₂_getElem? slotsBelow_sizes hd
    rw [hs, Option.some.injEq] at hs'
    subst hs'
    exact hsize

end

namespace Invocation

variable {p : Program} {e : Invocation} {top : Nat}

/-- What is passed for a variable that is declared: the location of a value for a reference, and no
location for any other variable. -/
lemma Sound.argument (h : e.Sound p top) {k : Nat} {d : VariableDecl}
    (hd : e.procedure.decls[k]? = some d) :
    (d.isReference = true → k < e.procedure.parameters.length ∧
      ∃ l, e.passed[k]? = some (.location l) ∧ Binding.Owned e.origin e.blocks e.roles e.fp top
        ⟨(d.type.shape? p.typeNames).getD .int, l⟩) ∧
    (d.isReference = false → e.passed[k]?.bind Passed.location? = none) := by
  by_cases hk : k < e.procedure.parameters.length
  · unfold Procedure.decls at hd
    rw [List.getElem?_append_left (by simpa using hk), List.getElem?_map,
      Option.map_eq_some_iff] at hd
    obtain ⟨x, hx, rfl⟩ := hd
    have hformal : (e.procedure.formals p.typeNames)[k]? =
        some ⟨(x.type.shape? p.typeNames).getD .int, x.isReference⟩ := by
      unfold Procedure.formals
      rw [List.getElem?_map, hx]
      rfl
    obtain ⟨y, hy, htakes⟩ := forall₂_getElem? h.passed hformal
    rw [hy]
    cases y with
    | word w =>
      refine ⟨fun href => ?_, fun _ => rfl⟩
      exact absurd (htakes.symm.trans href) Bool.false_ne_true
    | location l =>
      refine ⟨fun _ => ⟨hk, l, rfl, htakes.2⟩, fun hvalue => ?_⟩
      exact absurd (hvalue.symm.trans htakes.1) Bool.false_ne_true
  · rw [Nat.not_lt] at hk
    have hvalue := Procedure.isReference_eq_false hd hk
    have hlength : e.passed.length ≤ k := by
      rw [← h.passed.length_eq, Procedure.formals, List.length_map]
      exact hk
    rw [List.getElem?_eq_none hlength, hvalue]
    exact ⟨fun href => absurd href Bool.false_ne_true, fun _ => rfl⟩

/-- The blocks that there were lie where they did. -/
lemma newOrigin_of_lt {k : Nat} (hk : k < e.blocks) : e.newOrigin p k = e.origin k :=
  if_pos hk

/-- The block of a new variable lies where its words do. -/
lemma newOrigin_of_slot {k : Nat} {s : Nat × Nat}
    (hs : (e.procedure.slots p.typeNames e.fp)[k]? = some s) :
    e.newOrigin p (e.blocks + k) = s.1 := by
  unfold newOrigin
  rw [if_neg (Nat.not_lt.mpr (Nat.le_add_right _ _)), Nat.add_sub_cancel_left, hs]
  rfl

/-- The role of the cells of a variable that is no reference. -/
lemma role_of_value {k c : Nat} (h : e.passed[k]?.bind Passed.location? = none) :
    e.role k c = .cell ⟨e.blocks + k, c⟩ := by
  unfold role
  split
  · rename_i l hl
    rw [hl] at h
    cases h
  · rfl

/-- The role of the word of a reference. -/
lemma role_of_location {k c : Nat} {l : Location} (h : e.passed[k]? = some (.location l)) :
    e.role k c = .saved (wordAt (l.word e.origin)) := by
  unfold role
  rw [h]

/-- The roles of the words of a new frame. -/
lemma role_cases (a : Nat) :
    (e.fp + e.procedure.parameters.length ≤ a ∧ (e.frame p).roles a = e.roles a) ∨
    (a = (e.frame p).saves p + 1 ∧ (e.frame p).roles a = .saved e.callerFp) ∨
    (a = (e.frame p).saves p ∧ e.procedure.calls ≠ [] ∧
      (e.frame p).roles a = .saved e.returnTo) ∨
    (e.frame p).roles a = .free ∨
    ∃ k s c, (e.procedure.slots p.typeNames e.fp)[k]? = some s ∧ c < s.2 ∧ a = s.1 + c ∧
      (e.frame p).roles a = e.role k c := by
  by_cases habove : e.fp + e.procedure.parameters.length ≤ a
  · exact .inl ⟨habove, if_pos habove⟩
  · by_cases hfp : a = (e.frame p).saves p + 1
    · exact .inr (.inl ⟨hfp, (if_neg habove).trans (if_pos hfp)⟩)
    · by_cases hreturn : a = (e.frame p).saves p ∧ e.procedure.calls ≠ []
      · exact .inr (.inr (.inl ⟨hreturn.1, hreturn.2,
          (if_neg habove).trans ((if_neg hfp).trans (if_pos hreturn))⟩))
      · have hroles : (e.frame p).roles a =
            roleIn e.role (e.procedure.slots p.typeNames e.fp) 0 a :=
          (if_neg habove).trans ((if_neg hfp).trans (if_neg hreturn))
        rw [hroles]
        have hcases : roleIn e.role (e.procedure.slots p.typeNames e.fp) 0 a = .free ∨ _ :=
          roleIn_cases
        rcases hcases with hfree | ⟨k, s, c, hs, hc, ha, hrole⟩
        · exact .inr (.inr (.inr (.inl hfree)))
        · rw [Nat.zero_add] at hrole
          exact .inr (.inr (.inr (.inr ⟨k, s, c, hs, hc, ha, hrole⟩)))

section
variable (h : e.Sound p top)
include h

/-- The frame pointer of a new frame. -/
lemma Sound.fp_eq : (e.frame p).fp p = e.fp :=
  Nat.sub_add_cancel h.room

/-- The words that are saved lie below those of the local variables. -/
lemma Sound.saves_eq :
    (e.frame p).saves p + 2 + e.procedure.localCells p.typeNames = e.fp := by
  have hroom := h.room
  unfold Procedure.frameWords at hroom
  unfold Frame.saves frame
  dsimp only
  unfold Procedure.frameWords
  omega

/-- The words of a new frame lie below those of the arguments. -/
lemma Sound.localCells_le : e.procedure.localCells p.typeNames ≤ e.fp := by
  have hsaves := h.saves_eq
  omega

/-- The bounds of the words of a variable. -/
lemma Sound.slot_bounds {k : Nat} {s : Nat × Nat}
    (hs : (e.procedure.slots p.typeNames e.fp)[k]? = some s) :
    (e.frame p).saves p + 2 ≤ s.1 ∧ s.1 + s.2 ≤ e.fp + e.procedure.parameters.length := by
  have hbounds := Procedure.slots_bounds h.localCells_le (List.mem_of_getElem? hs)
  have hsaves := h.saves_eq
  omega

/-- The role of a word of a variable. -/
lemma Sound.role_of_slot {k : Nat} {s : Nat × Nat}
    (hs : (e.procedure.slots p.typeNames e.fp)[k]? = some s) {c : Nat} (hc : c < s.2) :
    (e.frame p).roles (s.1 + c) = e.role k c := by
  obtain ⟨hlow, hhigh⟩ := h.slot_bounds hs
  have hwords : (e.frame p).saves p = e.fp - e.procedure.frameWords p.typeNames p.signature +
      e.procedure.outgoingWords p.signature := rfl
  rw [hwords] at hlow
  unfold frame
  dsimp only
  rw [if_neg (by omega), if_neg (by omega), if_neg (by omega),
    roleIn_of_getElem? (Procedure.slots_apart h.localCells_le) hs hc, Nat.zero_add]

/-- The words for outgoing arguments of a new frame are free. -/
lemma Sound.role_outgoing {a : Nat} (ha : a < (e.frame p).saves p) :
    (e.frame p).roles a = .free := by
  have hsaves := h.saves_eq
  rcases role_cases (p := p) (e := e) a with ⟨habove, -⟩ | ⟨heq, -⟩ | ⟨heq, -⟩ | hfree |
    ⟨k, s, c, hs, -, heq, -⟩
  · omega
  · omega
  · omega
  · exact hfree
  · have hbounds := h.slot_bounds hs
    omega

/-- The word in which a new frame saves the frame pointer. -/
lemma Sound.role_callerFp : (e.frame p).roles ((e.frame p).saves p + 1) = .saved e.callerFp := by
  have hsaves := h.saves_eq
  exact (if_neg (by omega)).trans (if_pos rfl)

/-- The word in which a new frame saves the place in the code of the caller. -/
lemma Sound.role_returnTo (hcalls : e.procedure.calls ≠ []) :
    (e.frame p).roles ((e.frame p).saves p) = .saved e.returnTo := by
  have hsaves := h.saves_eq
  exact (if_neg (by omega)).trans
    ((if_neg (Nat.succ_ne_self _).symm).trans (if_pos ⟨rfl, hcalls⟩))

/-- A word that is for a cell of the store is that of the cell. -/
lemma Sound.cells_newOrigin {a : Nat} {l : Location} (ha : (e.frame p).roles a = .cell l) :
    l.word (e.newOrigin p) = a ∧ l.block < e.blocks + e.procedure.decls.length := by
  rcases role_cases (p := p) (e := e) a with ⟨-, hrole⟩ | ⟨-, hrole⟩ | ⟨-, -, hrole⟩ | hrole |
    ⟨k, s, c, hs, -, rfl, hrole⟩
  · obtain ⟨hword, hblock⟩ := h.cells a l (hrole.symm.trans ha)
    have hkept : l.word (e.newOrigin p) = l.word e.origin :=
      Location.word_congr (fun _ hk => newOrigin_of_lt hk) hblock
    exact ⟨hkept.trans hword, Nat.lt_of_lt_of_le hblock (Nat.le_add_right _ _)⟩
  · cases hrole.symm.trans ha
  · cases hrole.symm.trans ha
  · cases hrole.symm.trans ha
  · have hcell := hrole.symm.trans ha
    unfold role at hcell
    split at hcell
    · cases hcell
    · cases hcell
      refine ⟨?_, ?_⟩
      · unfold Location.word
        dsimp only
        rw [newOrigin_of_slot hs]
      · have hk := (List.getElem?_eq_some_iff.mp hs).1
        rw [Procedure.length_slots] at hk
        exact Nat.add_lt_add_left hk _

/-- A value that the caller passes is in the stack for the new frame too. -/
lemma Sound.owned_frame {b : Binding}
    (hb : b.Owned e.origin e.blocks e.roles e.fp top) :
    b.Owned (e.newOrigin p) (e.blocks + e.procedure.decls.length) (e.frame p).roles
      (e.frame p).bottom top := by
  have hmono := hb.mono (fun _ hk => newOrigin_of_lt (p := p) hk)
    (Nat.le_add_right e.blocks e.procedure.decls.length)
  refine ⟨hmono.fits, (Nat.sub_le _ _).trans hmono.above, hmono.below, hmono.block, fun c hc => ?_⟩
  have hcell := hmono.cells c hc
  -- The words for the arguments are free, so the cells are above them.
  have habove : e.fp + e.procedure.parameters.length ≤
      b.location.word (e.newOrigin p) + c := by
    by_contra hbelow
    rw [h.free _ (hmono.above.trans (Nat.le_add_right _ _)) (Nat.not_le.mp hbelow)] at hcell
    cases hcell
  exact (if_pos habove).trans hcell

/-- A variable that is no reference has its own cells in the new frame. -/
lemma Sound.owned_value (hcompilable : p.Compilable) {k : Nat} {d : VariableDecl}
    (hd : e.procedure.decls[k]? = some d) (hvalue : d.isReference = false) {s : Nat × Nat}
    (hs : (e.procedure.slots p.typeNames e.fp)[k]? = some s) :
    Binding.Owned (e.newOrigin p) (e.blocks + e.procedure.decls.length) (e.frame p).roles
      (e.frame p).bottom top ⟨(d.type.shape? p.typeNames).getD .int, ⟨e.blocks + k, 0⟩⟩ := by
  obtain ⟨shape, hshape, hfits⟩ :=
    hcompilable.shapes e.procedure h.member d (List.mem_of_getElem? hd)
  have hsize : s.2 = shape.cells := by
    rw [Procedure.slots_size hcompilable h.member hd hvalue hs, VariableDecl.cells, hshape]
    rfl
  obtain ⟨hlow, hhigh⟩ := h.slot_bounds hs
  have hbottom : (e.frame p).bottom ≤ (e.frame p).saves p := Nat.le_add_right _ _
  have hbelow := h.below
  have hword : Location.word (e.newOrigin p) ⟨e.blocks + k, 0⟩ = s.1 := newOrigin_of_slot hs
  have hk := (List.getElem?_eq_some_iff.mp hd).1
  rw [hshape]
  refine ⟨hfits, ?_, ?_, Nat.add_lt_add_left hk _, fun c hc => ?_⟩
  · rw [hword]
    omega
  · rw [hword]
    dsimp only [Option.getD_some]
    omega
  · rw [hword, h.role_of_slot hs (hsize ▸ hc), role_of_value ((h.argument hd).2 hvalue)]
    unfold Location.shift
    rw [Nat.zero_add]

/-- The places of a new frame belong to what its variables stand for. -/
lemma Sound.visible (hcompilable : p.Compilable) {name : String} {place : Place}
    (hplace : (e.procedure.places p.typeNames).lookup name = some place) :
    ∃ b a, (e.frame p).environment.lookup name = some b ∧
      b.Owned (e.newOrigin p) (e.blocks + e.procedure.decls.length) (e.frame p).roles
        (e.frame p).bottom top ∧
      place.Belongs (e.newOrigin p) (e.frame p).roles e.fp top b a ∧ (e.frame p).bottom ≤ a := by
  obtain ⟨k, d, offset, hd, hoffset, rfl, rfl⟩ := getElem?_of_lookup_places hplace
  have hlookup : (bindDecls p.typeNames e.procedure.decls e.passed e.blocks).lookup d.name = _ :=
    lookup_bindDecls (hcompilable.declNames e.procedure h.member) hd
  have hk : k < (e.procedure.slots p.typeNames e.fp).length := by
    rw [Procedure.length_slots]
    exact (List.getElem?_eq_some_iff.mp hd).1
  obtain ⟨s, hs⟩ : ∃ s, (e.procedure.slots p.typeNames e.fp)[k]? = some s :=
    ⟨_, List.getElem?_eq_getElem hk⟩
  obtain ⟨offset', hoffset', hword⟩ :=
    forall₂_getElem? (Procedure.slots_offsets h.localCells_le) hs
  rw [hoffset, Option.some.injEq] at hoffset'
  subst hoffset'
  obtain ⟨hlow, hhigh⟩ := h.slot_bounds hs
  have hbottom : (e.frame p).bottom ≤ (e.frame p).saves p := Nat.le_add_right _ _
  have hbelow := h.below
  cases hreference : d.isReference with
  | true =>
    obtain ⟨hk', l, hl, howned⟩ := (h.argument hd).1 hreference
    rw [hl] at hlookup
    refine ⟨_, s.1, hlookup, h.owned_frame howned, ⟨rfl, hword, by omega, fun _ => ?_, ?_⟩, by omega⟩
    · rw [Procedure.getElem?_slots hk', Option.some.injEq] at hs
      subst hs
      refine ⟨by dsimp only at hhigh ⊢; omega, ?_⟩
      have hrole := h.role_of_slot (Procedure.getElem?_slots hk') Nat.one_pos
      have hkept : l.word (e.newOrigin p) = l.word e.origin :=
        Location.word_congr (fun _ hk => newOrigin_of_lt hk) howned.block
      rw [role_of_location hl, ← hkept] at hrole
      exact hrole
    · exact fun hfalse => absurd hfalse.symm Bool.false_ne_true
  | false =>
    rw [(h.argument hd).2 hreference] at hlookup
    refine ⟨_, s.1, hlookup, h.owned_value hcompilable hd hreference hs,
      ⟨rfl, hword, by omega, ?_, fun _ => (newOrigin_of_slot hs).symm⟩, by omega⟩
    exact fun htrue => absurd htrue Bool.false_ne_true

/-- A new frame is valid. -/
lemma Sound.valid (hcompilable : p.Compilable) :
    (e.frame p).Valid p (e.newOrigin p) (e.blocks + e.procedure.decls.length) top := by
  refine ⟨h.member, ?_, fun a _ ha => h.role_outgoing ha, h.role_returnTo, h.role_callerFp,
    fun a l ha => h.cells_newOrigin ha, fun name place hplace => ?_⟩
  · rw [h.fp_eq]
    exact (Nat.le_add_right _ _).trans h.below
  · rw [h.fp_eq]
    exact h.visible hcompilable hplace

/-- A memory agrees with a new frame if the arguments and what is saved are in it, the words above
are as the caller has them, and the new variables have the contents that are there. -/
lemma Sound.holds {store contents : Store} {memory : Nat → Bits}
    (habove : ∀ a, e.fp + e.procedure.parameters.length ≤ a → a < top →
      (e.roles a).Holds store (memory a))
    (hpassed : ∀ k x, e.passed[k]? = some x → memory (e.fp + k) = x.bits e.origin)
    (hcallerFp : memory ((e.frame p).saves p + 1) = e.callerFp)
    (hreturnTo : e.procedure.calls ≠ [] → memory ((e.frame p).saves p) = e.returnTo)
    (hcontents : ∀ l, contents l = memory (l.word (e.newOrigin p))) :
    (e.frame p).Holds top (store.extend e.blocks e.passed contents) memory := by
  intro a _ htop
  rcases role_cases (p := p) (e := e) a with ⟨ha, hrole⟩ | ⟨rfl, hrole⟩ | ⟨rfl, hcalls, hrole⟩ |
    hrole | ⟨k, s, c, hs, hc, rfl, hrole⟩
  · rw [hrole]
    have hword := habove a ha htop
    cases hcell : e.roles a with
    | cell l =>
      rw [hcell] at hword
      exact hword.trans (if_pos (h.cells a l hcell).2).symm
    | saved w =>
      rw [hcell] at hword
      exact hword
    | free => trivial
  · rw [hrole]
    exact hcallerFp
  · rw [hrole]
    exact hreturnTo hcalls
  · rw [hrole]
    trivial
  · rw [hrole]
    have hnew : ¬e.blocks + k < e.blocks := Nat.not_lt.mpr (Nat.le_add_right _ _)
    have hplace : ∀ x, e.passed[k]? = some x → s.1 + c = e.fp + k := by
      intro x hx
      have hk := (List.getElem?_eq_some_iff.mp hx).1
      rw [← h.passed.length_eq, Procedure.formals, List.length_map] at hk
      rw [Procedure.getElem?_slots hk, Option.some.injEq] at hs
      subst hs
      dsimp only at hc ⊢
      omega
    cases hx : e.passed[k]? with
    | none =>
      rw [role_of_value (by rw [hx]; rfl)]
      unfold Role.Holds Store.extend
      dsimp only
      rw [if_neg hnew, Nat.add_sub_cancel_left, hx, hcontents, Location.word, newOrigin_of_slot hs]
    | some x =>
      have hword := hpassed k x hx
      rw [← hplace x hx] at hword
      cases x with
      | word w =>
        rw [role_of_value (by rw [hx]; rfl)]
        unfold Role.Holds Store.extend
        dsimp only
        rw [if_neg hnew, Nat.add_sub_cancel_left, hx]
        exact hword
      | location l =>
        rw [role_of_location hx]
        exact hword

end

end Invocation

end TreeCompiler
