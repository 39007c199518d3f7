import TreeCompiler.Proofs.Meaning.Expression
import TreeCompiler.Proofs.Meaning.Footprint

/-!
# The code of an expression on its own

The code that is emitted for an expression in the middle of a procedure, on its own, carries out the
evaluation of the expression (`Program.carries_out_expressions`).  It is executed by a machine whose
memory agrees with a store (`Machine.AgreesWith`), with some registers of the bank in use.  If the
expression has a value then the machine comes to the end of the code with the value in the next
register; otherwise it goes to the index error, or it divides by zero, if that is what an evaluation
from left to right comes to first (`Host.CarriesOut`).  In every state on the way the memory, the
registers in use and those outside of the bank are as they were.

The code of a variable finds out the address of the variable in the same way.
-/

namespace TreeCompiler

/-! ### Labels within a fragment -/

/-- The labels of a fragment are those that it takes. -/
lemma Links.exists_of_label {code : Code} {l n : Nat} {outside called : List String}
    (h : Links code (labelsFrom l n) outside called) {name : String} (hname : .label name ∈ code) :
    ∃ k, l ≤ k ∧ labelName k = name := by
  have hmem : name ∈ TreeCompiler.symbols code := List.mem_filterMap.mpr ⟨_, hname, rfl⟩
  obtain ⟨k, hk, heq⟩ := List.mem_map.mp (h.symbols.subset hmem)
  exact ⟨k, (List.mem_range'_1.mp hk).1, heq⟩

/-- A fragment whose labels are made up resolves them. -/
lemma Links.linked {code : Code} {l n : Nat} {outside called : List String}
    (h : Links code (labelsFrom l n) outside called) : Linked code := by
  have hnodup : (TreeCompiler.symbols code).Nodup := h.symbols.nodup_iff.mpr nodup_labelsFrom
  refine ⟨fun name rest hsuffix => findLabel_eq_some hnodup hsuffix, fun name hname => ?_⟩
  refine findLabel_eq_none fun hlabel => ?_
  obtain ⟨k, -, heq⟩ := h.exists_of_label hlabel
  exact Program.ne_labelName_of_mem_imports hname k heq.symm

/-! ### Agreement of a machine and a store -/

/-- A machine agrees with a store of a procedure's scope: the frame pointer is the address of a word,
and every variable that the tables bind lies at its offset from there, or its word is the address of
what it stands for if it is a reference; the cells of what it stands for are in memory, and their
addresses do not wrap around. -/
structure Machine.AgreesWith (m : Machine) (tables : Tables) (scope : ScopeId)
    (environment : Environment) (store : Store) (origin : Nat → Nat) (frame : Nat) : Prop where
  fp : m.get .fp = wordAt frame
  slots : ∀ name slot, tables.lookup scope name = some (.var slot) → ∃ b offset,
    environment.lookup name = some b ∧ slot.offset = some offset ∧
    tables.types.shape? slot.type = some b.shape ∧
    (Place.mk b.shape slot.isReference offset).Shows frame origin m.memory b ∧
    Word.size * (b.location.word origin + b.shape.cells) ≤ addresses ∧
    ∀ c < b.shape.cells, m.memory (b.location.word origin + c) = store (b.location.shift c)

section
variable {p : Program} {t : Tables} {q : Procedure} {e : ProcedureEntry} {name : String}

/-- A place that is found under a name is that of a declared variable of the name. -/
lemma exists_of_lookup_zipWith_place {names : List (String × ValueShape)}
    {R : VariableDecl → Int → Prop} {ds : List VariableDecl} {offsets : List Int}
    (h : List.Forall₂ R ds offsets) {place : Place}
    (hplace : (List.zipWith (VariableDecl.place names) ds offsets).lookup name = some place) :
    ∃ d offset, d.name = name ∧ R d offset := by
  induction h with
  | nil => cases hplace
  | @cons d offset ds offsets hd _ ih =>
    rw [List.zipWith_cons_cons, VariableDecl.place, List.lookup_cons] at hplace
    split at hplace
    · rename_i hname
      exact ⟨d, offset, (beq_iff_eq.mp hname).symm, hd⟩
    · exact ih hplace

/-- A place of a procedure is that of a variable in the scope of the procedure. -/
lemma Tables.LaidOut.lookup_of_place (h : t.LaidOut p) (hq : q ∈ p.procedures)
    (he : t.binding? .global q.name = some (.procedure e)) {place : Place}
    (hplace : (q.places p.typeNames).lookup name = some place) :
    ∃ slot, t.lookup e.scope name = some (.var slot) := by
  obtain ⟨d, offset, rfl, slot, hslot, -⟩ :=
    exists_of_lookup_zipWith_place (h.laysOut hq he).places hplace
  refine ⟨slot, ?_⟩
  rw [(h.belongTo.declares hq he).lookup_eq h.belongTo, hslot]
  rfl

variable {m : Machine} {environment : Environment} {store : Store} {origin : Nat → Nat} {frame : Nat}

/-- Where the code goes on does not matter for what a machine agrees with. -/
lemma Machine.AgreesWith.goTo {scope : ScopeId}
    (h : m.AgreesWith t scope environment store origin frame) (rest : Code) :
    (m.goTo rest).AgreesWith t scope environment store origin frame :=
  ⟨h.fp, h.slots⟩

/-- A machine that agrees with a store shows the variables of the procedure. -/
lemma Machine.AgreesWith.shows (h : t.LaidOut p) (hq : q ∈ p.procedures)
    (he : t.binding? .global q.name = some (.procedure e))
    (hm : m.AgreesWith t e.scope environment store origin frame) :
    View.Shows ⟨q.places p.typeNames, environment, store, origin, frame⟩ m := by
  have hshows := h.shows hq he
  refine ⟨hm.fp, fun name place hplace => ?_⟩
  obtain ⟨slot, hslot⟩ := h.lookup_of_place hq he hplace
  obtain ⟨place', hplace', hoffset, href, hshape⟩ := hshows.place name slot hslot
  dsimp only at hplace
  rw [hplace] at hplace'
  cases hplace'
  obtain ⟨b, offset, hb, hoffset', hshape', hword, hbounded, hcells⟩ := hm.slots name slot hslot
  rw [hoffset] at hoffset'
  cases hoffset'
  have hsame : b.shape = place.shape := Option.some.inj (hshape'.symm.trans hshape)
  rw [href] at hword
  exact ⟨b, hb, ⟨hsame, hword.word⟩, h.belongTo.wellFormed.fits hshape', hbounded, hcells⟩

/-- A machine that shows the variables of the procedure agrees with the store. -/
lemma View.Shows.agreesWith (h : t.LaidOut p) (hq : q ∈ p.procedures)
    (he : t.binding? .global q.name = some (.procedure e))
    (hm : View.Shows ⟨q.places p.typeNames, environment, store, origin, frame⟩ m) :
    m.AgreesWith t e.scope environment store origin frame := by
  refine ⟨hm.fp, fun name slot hslot => ?_⟩
  obtain ⟨place, hplace, hoffset, href, hshape⟩ := (h.shows hq he).place name slot hslot
  obtain ⟨b, hb, hshows, hstored⟩ := hm.memory name place hplace
  refine ⟨b, place.offset, hb, hoffset, ?_, ⟨rfl, ?_⟩, hstored.bounded, hstored.cells⟩
  · rw [hshows.shape, hshape]
  · rw [href]
    exact hshows.word

/-- A machine agrees with the store if it shows what is at each of the places of the procedure. -/
lemma Machine.agreesWith_of_places (h : t.LaidOut p) (hq : q ∈ p.procedures)
    (he : t.binding? .global q.name = some (.procedure e)) {places : List (String × Place)}
    (hplaces : q.places p.typeNames = places) (hfp : m.get .fp = wordAt frame)
    (hshows : ∀ x ∈ places, ∃ b, environment.lookup x.1 = some b ∧
      x.2.Shows frame origin m.memory b ∧ b.Stored store origin m.memory) :
    m.AgreesWith t e.scope environment store origin frame := by
  refine View.Shows.agreesWith h hq he ⟨hfp, ?_⟩
  intro name place hplace
  dsimp only at hplace
  rw [hplaces] at hplace
  obtain ⟨before, after, hsplit, -⟩ := List.lookup_eq_some_iff.mp hplace
  apply hshows (name, place)
  rw [hsplit]
  exact List.mem_append_right _ List.mem_cons_self

end

/-! ### Words as integers -/

/-- Whether a comparison holds between two integers. -/
def BinaryOp.relates (op : BinaryOp) (x y : Int) : Bool :=
  match op with
  | .eq => x = y
  | .ne => x ≠ y
  | .lt => x < y
  | .le => x ≤ y
  | .gt => y < x
  | .ge => y ≤ x
  | .add | .sub | .mul | .div => false

/-- What an operator computes from two integers.  Sums, differences, products and quotients, which
are rounded toward zero, are reduced to a word; a comparison gives 1 or 0. -/
def BinaryOp.compute (op : BinaryOp) (x y : Int) : Except NoValue Bits :=
  match op with
  | .add => .ok (BitVec.ofInt 32 (x + y))
  | .sub => .ok (BitVec.ofInt 32 (x - y))
  | .mul => .ok (BitVec.ofInt 32 (x * y))
  | .div => if y = 0 then .error .divisionByZero else .ok (BitVec.ofInt 32 (x.tdiv y))
  | .eq | .ne | .lt | .le | .gt | .ge => .ok (if op.relates x y then 1 else 0)

section
variable {a b : Bits}

/-- A comparison of words is that of signed integers. -/
lemma BinaryOp.holds_eq_relates (op : BinaryOp) : op.holds a b = op.relates a.toInt b.toInt := by
  cases op with
  | add | sub | mul | div => rfl
  | eq => simp [holds, relates, BitVec.toInt_inj, Bool.beq_eq_decide_eq]
  | ne => simp [holds, relates, BitVec.toInt_inj, bne, Bool.beq_eq_decide_eq]
  | lt | gt => exact BitVec.slt_eq_decide
  | le | ge => exact BitVec.sle_eq_decide

/-- The value of an operator is computed from signed integers. -/
lemma BinaryOp.apply_eq_compute (op : BinaryOp) : op.apply a b = op.compute a.toInt b.toInt := by
  have hwrap : ∀ {w : Bits} {i : Int}, w.toInt = i.bmod (2 ^ 32) → w = BitVec.ofInt 32 i := by
    intro w i h
    refine BitVec.eq_of_toInt_eq ?_
    rw [h, BitVec.toInt_ofInt]
  cases op with
  | add => exact congrArg Except.ok (hwrap (BitVec.toInt_add a b))
  | sub => exact congrArg Except.ok (hwrap BitVec.toInt_sub)
  | mul => exact congrArg Except.ok (hwrap (BitVec.toInt_mul a b))
  | div =>
    have hzero : b = 0 ↔ b.toInt = 0 := by
      rw [← BitVec.toInt_inj]
      rfl
    rw [apply, compute, hwrap (BitVec.toInt_sdiv a b)]
    simp only [hzero]
  | eq | ne | lt | le | gt | ge => simp only [apply, compute, holds_eq_relates, truth]

end

/-! ### Carrying out an evaluation -/

/-- A machine faults like an evaluation, with so many registers of the bank in use: the evaluation
makes sense, the machine goes to the index error or divides by zero where the evaluation does, and in
every state on its way everything but registers of the bank from the next one on is as it was. -/
structure Host.FaultsLike {code : Code} {α : Type} (host : Host code) (m : Machine) (n : Nat)
    (value : Except NoValue α) : Prop where
  meaningful : value ≠ .error .meaningless
  indexError : (∃ k, (host.after m k).status = .indexError) ↔ value = .error .indexOutOfRange
  divisionByZero : (∃ k, (host.after m k).status = .divisionByZero) ↔
    value = .error .divisionByZero
  preserves : ∀ k, m.Preserves (host.after m k) n

/-- A machine carries out an evaluation by the code that it has: it faults like the evaluation, or it
comes to the end of the code with the value in the next register of the bank. -/
structure Host.CarriesOut {code : Code} (host : Host code) (m : Machine) (n : Nat)
    (value : Except NoValue Bits) : Prop extends host.FaultsLike m n value where
  result : ∀ w, (∃ k, (host.after m k).AtEnd ∧ (host.after m k).get (bank n) = w) ↔ value = .ok w

/-- A fault shows in the status in which a run ends. -/
lemma NoValue.status_injective {fault fault' : NoValue} (h : fault.status = fault'.status) :
    fault = fault' := by
  cases fault <;> cases fault' <;> first | rfl | cases h

/-- A run that ends with a fault is not running. -/
lemma NoValue.status_ne_running {fault : NoValue} : fault.status ≠ .running := by
  cases fault <;> exact fun h => by cases h

section
variable {code : Code} {host : Host code} {m : Machine} {n : Nat} {α : Type}
  {value : Except NoValue α} {good : α → Machine → Prop}

/-- A machine that faults like an evaluation faults like what is made of its value. -/
lemma Host.FaultsLike.map {β : Type} (h : host.FaultsLike m n value) (f : α → β) :
    host.FaultsLike m n (value.map f) := by
  have hfault : ∀ fault, value.map f = .error fault ↔ value = .error fault := by
    intro fault
    cases value <;> simp [Except.map]
  exact ⟨(hfault _).not.mpr h.meaningful, h.indexError.trans (hfault _).symm,
    h.divisionByZero.trans (hfault _).symm, h.preserves⟩

/-- A machine that carries out an evaluation faults like it. -/
lemma Host.Evaluates.faultsLike (h : host.Evaluates m value good)
    (hgood : ∀ a m', good a m' → host.Stops m' ∧ m'.status = .running)
    (hcode : Code.WritesFrom n code) (hrest : m.rest <:+ code) : host.FaultsLike m n value := by
  have hstatus : ∀ {fault : NoValue}, fault ≠ .meaningless →
      ((∃ k, (host.after m k).status = fault.status) ↔ value = .error fault) := by
    intro fault hfault
    constructor
    · rintro ⟨k, hk⟩
      rcases h.of_stops (fun a m' ha => (hgood a m' ha).1) (.of_fault hfault hk) with
        ⟨a, -, ha⟩ | ⟨fault', hvalue, hends⟩
      · exact absurd (hk.symm.trans (hgood _ _ ha).2) NoValue.status_ne_running
      · rw [hvalue, NoValue.status_injective (hk.symm.trans hends)]
    · intro hvalue
      rcases h with ⟨a, m', ha, -⟩ | ⟨fault', m', hvalue', -, ⟨k, hk⟩, -, hends⟩
      · rw [hvalue] at ha
        cases ha
      · rw [hvalue] at hvalue'
        cases hvalue'
        exact ⟨k, by rw [hk.after, hends]⟩
  refine ⟨?_, hstatus (by decide : NoValue.indexOutOfRange ≠ .meaningless),
    hstatus (by decide : NoValue.divisionByZero ≠ .meaningless),
    fun k => (preserves_after hcode hrest k).1⟩
  rintro rfl
  rcases h with ⟨a, m', ha, -⟩ | ⟨fault, m', hvalue, hsense, -⟩
  · cases ha
  · cases hvalue
    exact hsense rfl

/-- A run that stops while the machine is running has come to a state for the value. -/
lemma Host.Evaluates.exists_of_stops (h : host.Evaluates m value good)
    (hgood : ∀ a m', good a m' → host.Stops m') {k : Nat} (hk : host.Stops (host.after m k))
    (hrun : (host.after m k).status = .running) : ∃ a, value = .ok a ∧ good a (host.after m k) := by
  rcases h.of_stops hgood hk with hvalue | ⟨fault, -, hends⟩
  · exact hvalue
  · exact absurd (hends.symm.trans hrun) NoValue.status_ne_running

/-- A value is reached. -/
lemma Host.Evaluates.exists_of_ok (h : host.Evaluates m value good) {a : α} (ha : value = .ok a) :
    ∃ k, good a (host.after m k) := by
  subst ha
  rcases h with ⟨b, m', hb, ⟨k, hk⟩, -, hm'⟩ | ⟨fault, m', hfault, -⟩
  · cases hb
    exact ⟨k, hk.after ▸ hm'⟩
  · cases hfault

/-- Where an evaluation has a value, a register is left with a word. -/
lemma Host.Evaluates.exists_get (h : host.Evaluates m value good) (r : Register) :
    ∃ w, host.Evaluates m value fun a (m' : Machine) => good a m' ∧ m'.get r = w := by
  rcases h with ⟨a, m', ha, hreaches, hevents, hm'⟩ | hfault
  · exact ⟨m'.get r, .inl ⟨a, m', ha, hreaches, hevents, hm', rfl⟩⟩
  · exact ⟨0, .inr hfault⟩

/-- An evaluation in which the code leaves the value in the next register is carried out. -/
lemma Host.Evaluates.carriesOut {word : α → Bits}
    (h : host.Evaluates m value fun a (m' : Machine) => m'.get (bank n) = word a ∧ m'.AtEnd)
    (hcode : Code.WritesFrom n code) (hrest : m.rest <:+ code) :
    host.CarriesOut m n (value.map word) := by
  refine ⟨(h.faultsLike (fun _ _ hm' => ⟨.of_atEnd hm'.2, hm'.2.status⟩) hcode hrest).map word,
    fun w => ⟨?_, ?_⟩⟩
  · rintro ⟨k, hend, rfl⟩
    obtain ⟨a, rfl, ha, -⟩ :=
      h.exists_of_stops (fun _ _ hm' => .of_atEnd hm'.2) (.of_atEnd hend) hend.status
    rw [ha]
    rfl
  · intro hw
    obtain ⟨a, ha, rfl⟩ := map_eq_ok.mp hw
    obtain ⟨k, hk, hend⟩ := h.exists_of_ok ha
    exact ⟨k, hend, hk⟩

end

section
variable {v : View} {n l : Nat} {m : Machine}

/-- The code of an expression on its own carries out the evaluation of the expression.  If that is an
array without cells, a word is left in the place of its value. -/
lemma Expr.exists_carriesOut {e : Expr} {s : ValueShape} (he : e.shape? v.places = some s)
    (hn : n + e.need ≤ bankSize) (host : Host (e.code v.places n l)) (hshows : v.Shows m)
    (hrun : m.status = .running) (hrest : m.rest = e.code v.places n l) :
    ∃ w, host.CarriesOut m n ((e.evaluate v.environment v.store).map fun value =>
      if 0 < s.cells then value else w) := by
  have hlinked := (e.links_code v.places n l).linked
  have hsuffix : m.rest <:+ e.code v.places n l := hrest ▸ List.suffix_rfl
  have hcode := Expr.code_evaluates_of_cells host hlinked he hshows hrun hn
    (hrest.trans (List.append_nil _).symm) hsuffix
  obtain ⟨w, hcode⟩ := hcode.exists_get (bank n)
  refine ⟨w, (hcode.mono fun value m' _ h => ?_).carriesOut (e.writesFrom_code hn) hsuffix⟩
  obtain ⟨⟨hvalue, hkeeps, hend⟩, hword⟩ := h
  refine ⟨?_, hkeeps.status, hend⟩
  by_cases hcells : 0 < s.cells
  · rw [if_pos hcells, hvalue hcells]
  · rw [if_neg hcells, hword]

/-- The code of an expression that is not an array carries out the evaluation of the expression. -/
lemma Expr.carriesOut {e : Expr} {s : ValueShape} (he : e.shape? v.places = some s)
    (hs : s.isScalar = true) (hn : n + e.need ≤ bankSize) (host : Host (e.code v.places n l))
    (hshows : v.Shows m) (hrun : m.status = .running) (hrest : m.rest = e.code v.places n l) :
    host.CarriesOut m n (e.evaluate v.environment v.store) := by
  obtain ⟨w, hcarries⟩ := Expr.exists_carriesOut he hn host hshows hrun hrest
  have hsame : (e.evaluate v.environment v.store).map
      (fun value => if 0 < s.cells then value else w) = e.evaluate v.environment v.store := by
    simp only [if_pos (ValueShape.cells_pos_of_isScalar hs)]
    cases e.evaluate v.environment v.store <;> rfl
  rwa [hsame] at hcarries

/-- The code of a variable on its own finds out the address of the variable. -/
lemma Variable.carriesOut {x : Variable} {s : ValueShape} (hx : x.shape? v.places = some s)
    (hn : n + x.need ≤ bankSize) (host : Host (x.code v.places n l)) (hshows : v.Shows m)
    (hrun : m.status = .running) (hrest : m.rest = x.code v.places n l) :
    host.CarriesOut m n ((x.locate v.environment v.store).map fun b =>
      wordAt (b.location.word v.origin)) := by
  have hlinked := (x.links_code v.places n l).linked
  have hsuffix : m.rest <:+ x.code v.places n l := hrest ▸ List.suffix_rfl
  have hcode := Variable.code_evaluates host hlinked hx hshows hrun hn
    (hrest.trans (List.append_nil _).symm) hsuffix
  exact (hcode.mono fun b m' _ h => ⟨h.2.2.1, ⟨h.2.2.2.1.status, h.2.2.2.2⟩⟩).carriesOut
    (x.writesFrom_code hn) hsuffix

end

/-! ### Expressions of a program -/

/-- A node of a body has a type, which is noted, and so are those of its own nodes. -/
lemma Program.Ready.node {p : Program} {tables : Tables} {types : Annotations}
    (h : p.Ready tables types) {q : Procedure} (hq : q ∈ p.procedures) {entry : ProcedureEntry}
    (hentry : tables.procedure? q.name = some entry) {x : TypedNode}
    (hx : x ∈ typedNodesOf q.body) : ∃ t, x.HasType tables entry.scope t ∧
      types.find? x.id = some t ∧ tables.Notes entry.scope types x.typedNodes := by
  obtain ⟨entry', hentry', hbody⟩ := h.wellTyped q hq
  rw [hentry] at hentry'
  cases hentry'
  have hnotes := h.notes q hq entry hentry
  obtain ⟨t, ht⟩ := exists_of_mem_typedNodesOf hbody hx
  exact ⟨t, ht, hnotes x hx t ht, hnotes.sub (typedNodesOf_subset hx)⟩

/-- The code of an expression leaves its value, and that of a variable its address, in the next
register of the bank, and leaves everything else as it was.  The operators are those of signed
integers, reduced to words.

An expression whose type is that of an array is there only as an argument for a reference parameter,
and then it is the code of its variable that is emitted.  The code of the expression itself would leave
the first cell of the array, or some word if the array takes no bytes. -/
theorem Program.carries_out_expressions (definitions : List Definition)
    (declared allocated : Tables) (types : Annotations)
    (hdeclared : (ofDefinitions definitions).declare.runOn .predefined = (.ok (), declared))
    (hchecked : (ofDefinitions definitions).check declared = .ok types)
    (hallocated : (ofDefinitions definitions).allocate.runOn declared = (.ok (), allocated))
    (q : Procedure) (hq : q ∈ (ofDefinitions definitions).procedures) (entry : ProcedureEntry)
    (hentry : allocated.procedure? q.name = some entry) (n l high : Nat) (hn : n ≤ bankSize) :
    (∀ e r code c, .expr e ∈ typedNodesOf q.body →
      (e.emit allocated types entry.scope).run (.at n l high) = .ok ((r, code), c) →
      r = bank n ∧ (∃ l' high', c = .at (n + 1) l' high') ∧
      ∃ t, types.find? e.mark.id = some t ∧
      ∀ (host : Host code) m environment store origin frame, m.status = .running → m.rest = code →
        m.AgreesWith allocated entry.scope environment store origin frame →
        ∃ w, host.CarriesOut m n ((e.evaluate environment store).map fun value =>
          if 0 < allocated.types.byteSize t then value else w)) ∧
    (∀ v r code c, .place v ∈ typedNodesOf q.body →
      (v.emit allocated types entry.scope).run (.at n l high) = .ok ((r, code), c) →
      r = bank n ∧ (∃ l' high', c = .at (n + 1) l' high') ∧
      ∀ (host : Host code) m environment store origin frame, m.status = .running → m.rest = code →
        m.AgreesWith allocated entry.scope environment store origin frame →
        host.CarriesOut m n ((v.locate environment store).map fun b =>
          wordAt (b.location.word origin))) ∧
    (∀ environment store mark operand a, Expr.evaluate environment store operand = .ok a →
      Expr.evaluate environment store (.negate mark operand) = .ok (BitVec.ofInt 32 (-a.toInt))) ∧
    ∀ environment store mark op left right a b, Expr.evaluate environment store left = .ok a →
      Expr.evaluate environment store right = .ok b →
      Expr.evaluate environment store (.binary mark op left right) =
        op.compute a.toInt b.toInt := by
  have hready := ready hdeclared hchecked hallocated
  have hbound := Tables.procedure?_eq_some.mp hentry
  have hshows := hready.laidOut.shows hq hbound
  refine ⟨?_, ?_, ?_, ?_⟩
  · intro e r code c hmem hemit
    obtain ⟨t, ht, hfound, hnotes⟩ := hready.node hq hentry hmem
    obtain ⟨heq, rfl, hfits⟩ := (Expr.emit_runs hshows ht hnotes hn).of_ok hemit
    cases heq
    obtain ⟨s, hs, hshape⟩ := Expr.HasType.shape?_eq hshows ht
    have hcells : 0 < allocated.types.byteSize t ↔ 0 < s.cells := by
      rw [hready.laidOut.belongTo.wellFormed.byteSize_eq hshape]
      exact Nat.mul_pos_iff_of_pos_left (by decide)
    refine ⟨rfl, ⟨_, _, rfl⟩, t, hfound,
      fun host m environment store origin frame hrun hrest hagrees => ?_⟩
    have hview := hagrees.shows hready.laidOut hq hbound
    simp only [hcells]
    exact Expr.exists_carriesOut hs hfits host hview hrun hrest
  · intro v r code c hmem hemit
    obtain ⟨t, ht, -, hnotes⟩ := hready.node hq hentry hmem
    obtain ⟨heq, rfl, hfits⟩ := (Variable.emit_runs hshows ht hnotes hn).of_ok hemit
    cases heq
    refine ⟨rfl, ⟨_, _, rfl⟩, fun host m environment store origin frame hrun hrest hagrees => ?_⟩
    obtain ⟨s, hs, -⟩ := Variable.HasType.shape?_eq hshows ht
    have hview := hagrees.shows hready.laidOut hq hbound
    exact Variable.carriesOut hs hfits host hview hrun hrest
  · intro environment store mark operand a ha
    have hneg : -a = BitVec.ofInt 32 (-a.toInt) := by
      rw [BitVec.ofInt_neg, BitVec.ofInt_toInt]
    rw [Expr.evaluate, ha, ← hneg]
    rfl
  · intro environment store mark op left right a b ha hb
    rw [Expr.evaluate, ha, hb]
    exact op.apply_eq_compute

/-! ### A program -/

/-- A program that compares an element of an array of arrays. -/
def grid : List Definition :=
  [.procedure
    { mark := .atLine 1
      name := "main"
      parameters := []
      locals := [
        ⟨.atLine 2, "m", .array (.atLine 2) 2 (.array (.atLine 2) 3 (.named (.atLine 2) "int"))⟩,
        ⟨.atLine 3, "i", .named (.atLine 3) "int"⟩]
      body := [.ifThen (.atLine 4)
        (.binary (.atLine 4) .lt
          (.read (.atLine 4) (.element (.atLine 4)
            (.element (.atLine 4) (.named (.atLine 4) "m") (.int (.atLine 4) 1))
            (.read (.atLine 4) (.named (.atLine 4) "i"))))
          (.int (.atLine 4) 7))
        (.empty (.atLine 4))] }]

/-- The tables in which the program is declared. -/
def gridDeclared : Tables := ((Program.ofDefinitions grid).declare.runOn .predefined).2

/-- The types of the nodes of the program. -/
def gridTypes : Annotations := ((Program.ofDefinitions grid).check gridDeclared).toOption.getD {}

/-- The tables in which the frames of the program are laid out. -/
def gridAllocated : Tables := ((Program.ofDefinitions grid).allocate.runOn gridDeclared).2

/-- The program goes through the passes. -/
lemma grid_passes :
    (Program.ofDefinitions grid).declare.runOn .predefined = (.ok (), gridDeclared) ∧
    (Program.ofDefinitions grid).check gridDeclared = .ok gridTypes ∧
    (Program.ofDefinitions grid).allocate.runOn gridDeclared = (.ok (), gridAllocated) := by
  have hchecked : ((Program.ofDefinitions grid).check gridDeclared).isOk = true := by decide +kernel
  exact ⟨by decide +kernel, eq_ok_of_isOk hchecked {}, by decide +kernel⟩

/-- The main procedure of the program. -/
def gridMain : Procedure := (Program.ofDefinitions grid).procedures.get ⟨0, by decide⟩

/-- The entry of the main procedure. -/
def gridEntry : ProcedureEntry := (gridAllocated.procedure? "main").getD default

/-- The element that is compared. -/
def gridElement : Variable :=
  .element ⟨10, 4⟩ (.element ⟨11, 4⟩ (.named ⟨12, 4⟩ "m") (.int ⟨13, 4⟩ 1))
    (.read ⟨14, 4⟩ (.named ⟨15, 4⟩ "i"))

/-- The condition of the program. -/
def gridTest : Expr := .binary ⟨8, 4⟩ .lt (.read ⟨9, 4⟩ gridElement) (.int ⟨16, 4⟩ 7)

/-- The condition is a node of the main procedure. -/
lemma gridTest_mem : .expr gridTest ∈ typedNodesOf gridMain.body := by
  have hbody : gridMain.body = [.ifThen ⟨7, 4⟩ gridTest (.empty ⟨17, 4⟩)] := rfl
  rw [hbody]
  exact List.mem_cons_self

/-- The places of the variables of the program. -/
def gridPlaces : List (String × Place) :=
  [("m", ⟨.array 2 (.array 3 .int), false, -24⟩), ("i", ⟨.int, false, -28⟩)]

/-- The code for the value of the condition, after a label is taken. -/
def gridCode : Code := gridTest.code gridPlaces 0 1

/-- The code for the value of the condition takes two labels and three registers. -/
lemma gridTest_emit : (gridTest.emit gridAllocated gridTypes gridEntry.scope).run (.at 0 1 0) =
    .ok ((bank 0, gridCode), .at 1 3 3) := by
  decide +kernel

/-- What surrounds a machine with the code for the value. -/
def gridHost : Host gridCode := .plain gridCode (by decide)

/-- What the variables of the program stand for. -/
def gridEnvironment : Environment :=
  [("m", ⟨.array 2 (.array 3 .int), ⟨0, 0⟩⟩), ("i", ⟨.int, ⟨1, 0⟩⟩)]

/-- The index is 2, and all the elements of the array are 5. -/
def gridStore : Store := fun l => if l.block = 1 then 2 else 5

/-- The words at which the variables lie. -/
def gridOrigin (block : Nat) : Nat := if block = 1 then 993 else 994

/-- The memory in which the variables lie. -/
def gridMemory : Nat → Bits := fun a => if a = 993 then 2 else 5

/-- A machine in the middle of the main procedure, with a piece of code. -/
def gridMachine (code : Code) : Machine where
  rest := code
  registers r := if r = .fp then wordAt 1000 else 0
  memory := gridMemory
  events := []
  status := .running

/-- The machine agrees with the store. -/
lemma gridMachine_agreesWith (code : Code) : (gridMachine code).AgreesWith gridAllocated
    gridEntry.scope gridEnvironment gridStore gridOrigin 1000 := by
  have hplaces : gridMain.places (Program.ofDefinitions grid).typeNames = gridPlaces := by
    decide +kernel
  have hready := Program.ready grid_passes.1 grid_passes.2.1 grid_passes.2.2
  have hcells : ∀ c < 6, gridMemory (994 + c) = gridStore ⟨0, 0 + c⟩ := by decide
  have hindex : ∀ c < 1, gridMemory (993 + c) = gridStore ⟨1, 0 + c⟩ := by decide
  apply Machine.agreesWith_of_places hready.laidOut (q := gridMain) (List.get_mem _ _)
    (by decide +kernel) hplaces rfl
  rw [gridPlaces, List.forall_mem_cons, List.forall_mem_singleton]
  constructor
  · exact ⟨⟨.array 2 (.array 3 .int), ⟨0, 0⟩⟩, rfl,
      ⟨rfl, 994, by decide, nofun, fun _ => rfl⟩,
      ⟨⟨⟨trivial, by decide, by decide⟩, by decide, by decide⟩, by decide, hcells⟩⟩
  · exact ⟨⟨.int, ⟨1, 0⟩⟩, rfl, ⟨rfl, 993, by decide, nofun, fun _ => rfl⟩,
      ⟨trivial, by decide, hindex⟩⟩

/-- The machine finds that the element is smaller. -/
theorem Program.carries_out_expressions_grid :
    (∃ k, (gridHost.after (gridMachine gridCode) k).AtEnd ∧
      (gridHost.after (gridMachine gridCode) k).get (bank 0) = 1) ∧
    ∀ k, (gridMachine gridCode).Preserves (gridHost.after (gridMachine gridCode) k) 0 := by
  obtain ⟨hdeclared, hchecked, hallocated⟩ := grid_passes
  have hentry : gridAllocated.procedure? gridMain.name = some gridEntry := by decide +kernel
  obtain ⟨hexpressions, -⟩ := carries_out_expressions grid gridDeclared gridAllocated gridTypes
    hdeclared hchecked hallocated gridMain (List.get_mem _ _) gridEntry hentry 0 1 0 (by decide)
  obtain ⟨-, -, t, ht, hcarries⟩ := hexpressions gridTest _ _ _ gridTest_mem gridTest_emit
  have hbool : gridTypes.find? gridTest.mark.id = some .bool := by decide +kernel
  obtain rfl : t = .bool := Option.some.inj (ht.symm.trans hbool)
  obtain ⟨w, hcondition⟩ := hcarries gridHost _ _ _ _ _ rfl rfl (gridMachine_agreesWith gridCode)
  have hvalue : gridTest.evaluate gridEnvironment gridStore = .ok 1 := rfl
  exact ⟨(hcondition.result 1).mpr (by rw [hvalue]; rfl), hcondition.preserves⟩

end TreeCompiler
