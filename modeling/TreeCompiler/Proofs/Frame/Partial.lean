import TreeCompiler.Proofs.Frame.Independence
import TreeCompiler.Proofs.Scope.Growth

/-!
# Frames that are laid out in part

Laying out the frames of a program stops at the first procedure whose variables do not fit.  The
procedures before it have all their places then, those after it have none, and the variables of the
procedure itself have places up to the one that does not fit (`Program.allocate_places`).  No place
ever lies beyond the smallest word; but if the local variables take exactly as many bytes as there are
negative words, the last of them lies there, although the size of all of them does not fit.
-/

namespace TreeCompiler

variable {names : List (String × ValueShape)} {procedures : List Procedure} {t t' : Tables}
  {id : ScopeId} {q : Procedure}

/-! ### The variables of a procedure -/

/-- No variable of a list has a place. -/
def Tables.Bare (t : Tables) (id : ScopeId) (l : List VariableDecl) : Prop :=
  ∀ d ∈ l, ∀ i, ¬t.Places id d i

/-- The variables of a procedure have places up to the first `k` local variables, none of which lies
beyond the smallest word, and the others have none. -/
structure Procedure.PlacedTo (names : List (String × ValueShape)) (t : Tables) (id : ScopeId)
    (q : Procedure) (k : Nat) : Prop where
  parameters : List.Forall₂ (t.Places id) (q.parameters.map Parameter.decl)
    (wordsFrom 0 q.parameters.length)
  locals : List.Forall₂ (t.Places id) ((q.locals.take k).map LocalVar.decl)
    (offsetsBelow names 0 ((q.locals.take k).map LocalVar.decl))
  rest : t.Bare id ((q.locals.drop k).map LocalVar.decl)
  fits : Word.min ≤ -(bytesOf names ((q.locals.take k).map LocalVar.decl) : Int)

/-- All variables of a procedure have places, and their sizes fit. -/
def Procedure.Complete (names : List (String × ValueShape)) (t : Tables) (id : ScopeId)
    (q : Procedure) : Prop :=
  q.variablesFault? names = none ∧ q.PlacedTo names t id q.locals.length

/-- Placing the variables of a procedure has stopped: before the first of them, because the arguments do
not fit, or after the first `k` local variables, because the next one does not fit or because the size
of all of them does not. -/
def Procedure.Halted (names : List (String × ValueShape)) (t : Tables) (id : ScopeId)
    (q : Procedure) : Prop :=
  (Word.max < (Word.size * q.parameters.length : Int) ∧ t.Bare id q.decls) ∨
    ((Word.size * q.parameters.length : Int) ≤ Word.max ∧ ∃ k, q.PlacedTo names t id k ∧
      ((k < q.locals.length ∧
          -(bytesOf names ((q.locals.take (k + 1)).map LocalVar.decl) : Int) < Word.min) ∨
        (k = q.locals.length ∧ Word.max < (q.localBytes names : Int))))

/-- Variables have no places where nothing has changed. -/
lemma Tables.Bare.congr {l : List VariableDecl} (h : t.Bare id l)
    (hsame : ∀ d ∈ l, t'.binding? id d.name = t.binding? id d.name) : t'.Bare id l := by
  rintro d hd i ⟨slot, hslot, hoffset⟩
  exact h d hd i ⟨slot, hsame d hd ▸ hslot, hoffset⟩

/-- Nothing has a place in tables without places. -/
lemma Tables.Unplaced.bare (h : t.Unplaced) (hid : id ≠ .global) (l : List VariableDecl) :
    t.Bare id l := by
  rintro d - i ⟨slot, hslot, hoffset⟩
  rw [h.offset_eq hid hslot] at hoffset
  cases hoffset

/-- Places stay where nothing has changed. -/
lemma Procedure.PlacedTo.congr {k : Nat} (h : q.PlacedTo names t id k)
    (hsame : ∀ n, t'.binding? id n = t.binding? id n) : q.PlacedTo names t' id k where
  parameters := h.parameters.imp fun d _ ⟨slot, hslot, hoffset⟩ =>
    ⟨slot, (hsame d.name).trans hslot, hoffset⟩
  locals := h.locals.imp fun d _ ⟨slot, hslot, hoffset⟩ =>
    ⟨slot, (hsame d.name).trans hslot, hoffset⟩
  rest := h.rest.congr fun d _ => hsame d.name
  fits := h.fits

/-- All places stay where nothing has changed. -/
lemma Procedure.Complete.congr (h : q.Complete names t id)
    (hsame : ∀ n, t'.binding? id n = t.binding? id n) : q.Complete names t' id :=
  ⟨h.1, h.2.congr hsame⟩

/-- Other scopes do not change while the variables of a procedure are placed. -/
lemma Procedure.Stopped.others (h : q.Stopped names t t' id) {j : ScopeId} (hj : j ≠ .global)
    (hne : j ≠ id) (n : String) : t'.binding? j n = t.binding? j n := by
  rcases h with ⟨-, hsame⟩ | ⟨-, k, hplaced, -⟩
  · exact hsame j n hj
  · exact hplaced.others j n hj (.inl hne)

/-- The procedure that placing has stopped at, if nothing had a place before. -/
lemma Procedure.Stopped.halted (h : q.Stopped names t t' id) (hinside : id ≠ .global)
    (hnodup : (q.decls.map VariableDecl.name).Nodup) (hbare : t.Bare id q.decls) :
    q.Halted names t' id := by
  rcases h with ⟨hlarge, hsame⟩ | ⟨hfits, k, hplaced, hnext⟩
  · exact .inl ⟨hlarge, hbare.congr fun d _ => hsame id d.name hinside⟩
  · refine .inr ⟨hfits, k, ⟨hplaced.parameters, hplaced.locals, ?_, hplaced.fits⟩, hnext⟩
    -- The local variables that are left have other names than those that are placed.
    unfold decls at hbare hnodup
    rw [List.map_append, List.map_map, List.map_map, ← List.take_append_drop k q.locals,
      List.map_append, ← List.append_assoc] at hnodup
    intro d hd
    have hfresh : d.name ∉ q.parameters.map Parameter.name ++ (q.locals.take k).map LocalVar.name :=
      fun hmem => by
        obtain ⟨v, hv, rfl⟩ := List.mem_map.mp hd
        exact (List.nodup_append.mp hnodup).2.2 _ hmem _ (List.mem_map_of_mem hv) rfl
    have hmem : d ∈ q.parameters.map Parameter.decl ++ q.locals.map LocalVar.decl := by
      obtain ⟨v, hv, rfl⟩ := List.mem_map.mp hd
      exact List.mem_append_right _ (List.mem_map_of_mem (List.mem_of_mem_drop hv))
    rintro i ⟨slot, hslot, hoffset⟩
    rw [hplaced.others id d.name hinside (.inr hfresh)] at hslot
    exact hbare d hmem i ⟨slot, hslot, hoffset⟩

/-- A procedure whose frame is laid out has all its places. -/
lemma Tables.PlacesVariables.complete {e : ProcedureEntry} (h : t.PlacesVariables names q e)
    (hfault : q.variablesFault? names = none) : q.Complete names t e.scope := by
  have hlength : (q.parameters.map Parameter.decl).length =
      (wordsFrom 0 q.parameters.length).length := by
    rw [List.length_map, length_wordsFrom]
  obtain ⟨hparameters, hlocals⟩ := forall₂_append_of_length hlength h.places
  have hfits := (Procedure.variablesFault?_eq_none.mp hfault).2
  refine ⟨hfault, hparameters, by rwa [List.take_length], ?_, ?_⟩
  · rw [List.drop_length]
    exact fun d hd => absurd hd List.not_mem_nil
  · rw [List.take_length]
    unfold Procedure.localBytes Word.max at hfits
    unfold Word.min
    omega

/-! ### The scopes of procedures -/

/-- A procedure has a scope. -/
def Tables.Scoped (t : Tables) (q : Procedure) (id : ScopeId) : Prop :=
  ∃ e, t.binding? .global q.name = some (.procedure e) ∧ e.scope = id

/-- The scope of a procedure does not depend on places. -/
lemma Tables.Scoped.of_erase (h : t.Scoped q id) (herase : t'.erase = t.erase) : t'.Scoped q id := by
  obtain ⟨e, he, rfl⟩ := h
  obtain ⟨e', he', hentry⟩ := Tables.binding?_procedure_of_erase herase he
  exact ⟨e', he', ProcedureEntry.scope_eq_of_erase hentry⟩

/-- A procedure has one scope. -/
lemma Tables.Scoped.eq (h : t.Scoped q id) {e : ProcedureEntry}
    (he : t.binding? .global q.name = some (.procedure e)) : e.scope = id := by
  obtain ⟨e', he', rfl⟩ := h
  rw [he] at he'
  cases he'
  rfl

/-- Two tables bind the same in all scopes but the global one. -/
def Tables.SameInside (t t' : Tables) : Prop :=
  ∀ j n, j ≠ .global → t'.binding? j n = t.binding? j n

/-- Placing the arguments of a procedure changes the global scope only. -/
lemma keeps_sameInside_allocateArguments (start : Tables) (name : String) :
    (allocateArguments name).Keeps start.SameInside := by
  unfold allocateArguments
  refine Step.keeps_get_bind fun t ht => ?_
  split
  · exact ht
  · split
    · exact fun j n hj => (Tables.binding?_modifyProcedure_of_ne (.inl hj)).trans (ht j n hj)
    · exact fun j n hj => (Tables.binding?_modifyProcedure_of_ne (.inl hj)).trans (ht j n hj)

/-- Allocating the area for outgoing arguments changes the global scope only. -/
lemma Procedure.keeps_sameInside_allocateOutgoing (start : Tables) (q : Procedure) :
    q.allocateOutgoing.Keeps start.SameInside :=
  Procedure.keeps_allocateOutgoing fun _ _ _ ht j n hj =>
    (Tables.binding?_modifyProcedure_of_ne (.inl hj)).trans (ht j n hj)

/-! ### Programs -/

/-- Placing the variables of procedures has stopped at one of them: those before it have all their
places, and those after it have none. -/
def HaltedAt (names : List (String × ValueShape)) (procedures : List Procedure) (t t' : Tables)
    (e : Located FrameError) : Prop :=
  ∃ done q rest, procedures = done ++ q :: rest ∧
    e = .atLine q.mark.line (.frameTooLarge q.name) ∧
    (∀ q' ∈ done, ∀ id, t.Scoped q' id → q'.Complete names t' id) ∧
    (∀ id, t.Scoped q id → q.Halted names t' id) ∧
    ∀ q' ∈ rest, ∀ id, t.Scoped q' id → t'.Bare id q'.decls

/-- Different procedures have different scopes. -/
lemma Tables.Holds.scope_ne (h : t.Holds names procedures) {q' : Procedure} {id' : ScopeId}
    (hq : t.Scoped q id) (hq' : t.Scoped q' id') (hne : q'.name ≠ q.name) : id' ≠ id := by
  obtain ⟨e, he, rfl⟩ := hq
  obtain ⟨e', he', rfl⟩ := hq'
  exact fun heq => hne (h.separate _ _ _ _ he' he heq)

/-- The scope of a procedure is not the global one. -/
lemma Tables.Holds.scope_ne_global (h : t.Holds names procedures) (hq : t.Scoped q id) :
    id ≠ .global := by
  obtain ⟨e, he, rfl⟩ := hq
  exact (h.inside _ _ he).1

/-- Different procedures of a program have different names. -/
lemma Tables.Holds.other_name (h : t.Holds names procedures) {done rest : List Procedure}
    (hl : procedures = done ++ q :: rest) : ∀ q' ∈ done ++ rest, q'.name ≠ q.name := by
  obtain ⟨-, hnodup, -⟩ := List.nodup_append.mp h.nodup
  have hmiddle : (q :: (done ++ rest)).map Procedure.name |>.Nodup := by
    rw [hl] at hnodup
    exact (List.perm_middle.map _).nodup_iff.mp hnodup
  rw [List.map_cons, List.nodup_cons] at hmiddle
  exact fun q' hq' heq => hmiddle.1 (heq ▸ List.mem_map_of_mem hq')

/-- The variables of all procedures get their places, or placing them stops at one of the procedures. -/
lemma allocateVariables_places (h : t.Holds names procedures)
    (hbare : ∀ q ∈ procedures, ∀ id, t.Scoped q id → t.Bare id q.decls) :
    (procedures.forM fun q => Step.atLine q.mark.line q.allocateVariables).Ends t
      (fun _ t' => ∀ q ∈ procedures, ∀ id, t.Scoped q id → q.Complete names t' id)
      (fun e t' => HaltedAt names procedures t t' e) := by
  refine (Step.ends_forM (fun done t₁ => t₁.erase = t.erase ∧
      (∀ q ∈ done, ∀ id, t.Scoped q id → q.Complete names t₁ id) ∧
      ∀ rest, procedures = done ++ rest → ∀ q ∈ rest, ∀ id, t.Scoped q id → t₁.Bare id q.decls)
    procedures ⟨rfl, fun _ hq => absurd hq List.not_mem_nil, fun rest hl q hq => ?_⟩
    fun done q rest hl t₁ h₁ => ?_).mono (fun _ _ h => h.2.1) fun _ _ h => h
  · exact hbare q (hl ▸ hq)
  obtain ⟨herase, hdone, hrest⟩ := h₁
  have hholds : t₁.Holds names procedures := h.of_erase herase.symm
  obtain ⟨e, he⟩ := hholds.declared q (hl ▸ List.mem_append_right _ List.mem_cons_self)
  have hinside := (hholds.inside _ _ he.bound).1
  have hscope : t.Scoped q e.scope := Tables.Scoped.of_erase ⟨e, he.bound, rfl⟩ herase.symm
  -- What happens in the scope of this procedure does not touch those of the others.
  have hothers : ∀ q' ∈ done ++ rest, ∀ id, t.Scoped q' id → id ≠ .global ∧ id ≠ e.scope :=
    fun q' hq' _ hid => ⟨h.scope_ne_global hid, h.scope_ne hscope hid (h.other_name hl q' hq')⟩
  have hbare := hrest _ hl
  rw [Step.ends_atLine]
  refine (q.allocateVariables_ends hholds.wellFormed he hinside).mono (fun _ t₂ h₂ => ?_)
    fun cause t₂ h₂ => ?_
  · obtain ⟨hfault, herase₂, hframe, e₂, he₂⟩ := h₂
    have herase₃ := herase₂.trans herase
    refine ⟨herase₃, fun q' hq' id hid => ?_, fun after hafter q' hq' id hid => ?_⟩
    · rcases List.mem_append.mp hq' with hq' | hq'
      · obtain ⟨hglobal, hne⟩ := hothers q' (List.mem_append_left _ hq') id hid
        exact (hdone q' hq' id hid).congr fun n => hframe id n hne (.inl hglobal)
      · cases List.mem_singleton.mp hq'
        rw [← (hid.of_erase herase₃).eq he₂.bound]
        exact he₂.complete hfault
    · rw [hl, List.append_assoc] at hafter
      obtain rfl : rest = after := by simpa using hafter
      obtain ⟨hglobal, hne⟩ := hothers q' (List.mem_append_right _ hq') id hid
      exact (hbare q' (List.mem_cons_of_mem _ hq') id hid).congr fun d _ =>
        hframe id d.name hne (.inl hglobal)
  · obtain ⟨rfl, hstopped⟩ := h₂
    refine ⟨done, q, rest, hl, rfl, fun q' hq' id hid => ?_, fun id hid => ?_, fun q' hq' id hid => ?_⟩
    · obtain ⟨hglobal, hne⟩ := hothers q' (List.mem_append_left _ hq') id hid
      exact (hdone q' hq' id hid).congr (hstopped.others hglobal hne)
    · obtain rfl := (hid.of_erase herase).eq he.bound
      exact hstopped.halted hinside he.nodup (hbare q List.mem_cons_self _ hid)
    · obtain ⟨hglobal, hne⟩ := hothers q' (List.mem_append_right _ hq') id hid
      exact (hbare q' (List.mem_cons_of_mem _ hq') id hid).congr fun d _ =>
        hstopped.others hglobal hne d.name

/-- All variables of a program that is declared get their places, or placing them stops at one of the
procedures. -/
theorem Program.allocate_places {p : Program} (h : t.BelongTo p) (hunplaced : t.Unplaced) :
    p.allocate.Ends t
      (fun _ t' => ∀ q ∈ p.procedures, ∀ id, t.Scoped q id → q.Complete p.typeNames t' id)
      (fun e t' => (∀ q ∈ p.procedures, ∀ id, t.Scoped q id → q.Complete p.typeNames t' id) ∨
        HaltedAt p.typeNames p.procedures t t' e) := by
  have hbare : ∀ q ∈ p.procedures, ∀ id, t.Scoped q id → t.Bare id q.decls :=
    fun _ _ _ hid => hunplaced.bare (h.scope_ne_global hid) _
  have hruntime : (runtimeProcedures.forM fun r =>
      Step.nowhere (discard (allocateArguments r.name))).Keeps t.SameInside :=
    Step.keeps_forM fun r _ => (keeps_sameInside_allocateArguments t r.name).discard.nowhere
  unfold allocate
  rw [Step.ends_bind]
  refine ((allocateRuntime_ends h).and (hruntime t fun _ _ _ => rfl)).mono (fun _ t₁ h₁ => ?_)
    fun _ _ h => h.1.elim
  obtain ⟨⟨herase₁, -⟩, hsame₁⟩ := h₁
  rw [Step.ends_bind]
  refine (allocateVariables_places (h.of_erase herase₁.symm) fun q hq id hid => ?_).mono
    (fun _ t₂ h₂ => ?_) fun e t₂ h₂ => .inr ?_
  · have hid := hid.of_erase herase₁.symm
    exact (hbare q hq id hid).congr fun d _ => hsame₁ id d.name (h.scope_ne_global hid)
  · -- The areas for outgoing arguments do not touch the variables.
    have houtgoing : (p.procedures.forM fun q => Step.atLine q.mark.line q.allocateOutgoing).Keeps
        t₂.SameInside :=
      Step.keeps_forM fun q _ => (q.keeps_sameInside_allocateOutgoing t₂).atLine q.mark.line
    have hcomplete : ∀ t₃, t₂.SameInside t₃ →
        ∀ q ∈ p.procedures, ∀ id, t.Scoped q id → q.Complete p.typeNames t₃ id :=
      fun t₃ h₃ q hq id hid =>
        (h₂ q hq id (hid.of_erase herase₁)).congr fun n => h₃ id n (h.scope_ne_global hid)
    exact (houtgoing t₂ fun _ _ _ => rfl).mono (fun _ t₃ h₃ => hcomplete t₃ h₃)
      fun _ t₃ h₃ => .inl (hcomplete t₃ h₃)
  · obtain ⟨done, q, rest, hl, he, hdone, hq, hrest⟩ := h₂
    exact ⟨done, q, rest, hl, he, fun q' hq' id hid => hdone q' hq' id (hid.of_erase herase₁),
      fun id hid => hq id (hid.of_erase herase₁),
      fun q' hq' id hid => hrest q' hq' id (hid.of_erase herase₁)⟩

end TreeCompiler
