import TreeCompiler.Proofs.Emission.Program

/-!
# The registers that a program needs

What a program asks of the registers (`Program.demands`) decides whether code is emitted for it, how
many registers are reported to have been in use, and which statement is blamed if the bank does not
suffice (`Program.register_need`).  Between statements no register is in use: `Stmt.EmitsWithin`
follows the cursor through the emission of a statement to the statements in it.
-/

namespace TreeCompiler

/-- A statement is another one, or in it. -/
inductive Stmt.Within : Stmt → Stmt → Prop
  | refl {s : Stmt} : Stmt.Within s s
  | block {mark : Mark} {body : List Stmt} {s s' : Stmt} :
      s ∈ body → Stmt.Within s' s → Stmt.Within s' (.block mark body)
  | ifThen {mark : Mark} {test : Expr} {thenPart s' : Stmt} :
      Stmt.Within s' thenPart → Stmt.Within s' (.ifThen mark test thenPart)
  | thenPart {mark : Mark} {test : Expr} {thenPart elsePart s' : Stmt} :
      Stmt.Within s' thenPart → Stmt.Within s' (.ifThenElse mark test thenPart elsePart)
  | elsePart {mark : Mark} {test : Expr} {thenPart elsePart s' : Stmt} :
      Stmt.Within s' elsePart → Stmt.Within s' (.ifThenElse mark test thenPart elsePart)
  | loop {mark : Mark} {test : Expr} {body s' : Stmt} :
      Stmt.Within s' body → Stmt.Within s' (.loop mark test body)

section
variable (tables : Tables) (types : Annotations) (scope : ScopeId)

/-- The emission of a statement from a cursor goes on to that of a statement in it, from a cursor
before it to one after it. -/
inductive Stmt.EmitsWithin : Stmt → Cursor → Stmt → Cursor → Cursor → Prop
  | self {s : Stmt} {c c' : Cursor} {code : Code} :
      (s.emit tables types scope).run c = .ok (code, c') → Stmt.EmitsWithin s c s c c'
  | block {mark : Mark} {first rest : List Stmt} {s s' : Stmt} {c c₁ b a : Cursor} {code : Code} :
      (emitStmts tables types scope first).run c = .ok (code, c₁) →
      Stmt.EmitsWithin s c₁ s' b a → Stmt.EmitsWithin (.block mark (first ++ s :: rest)) c s' b a
  | ifThen {mark : Mark} {test : Expr} {thenPart s' : Stmt} {c c₁ b a : Cursor} {code : Code} :
      (do
        let endLabel ← Emit.newLabel
        Emit.atLine mark.line (test.emitCondition tables types scope endLabel)).run c =
          .ok (code, c₁) →
      Stmt.EmitsWithin thenPart c₁ s' b a →
      Stmt.EmitsWithin (.ifThen mark test thenPart) c s' b a
  | thenPart {mark : Mark} {test : Expr} {thenPart elsePart s' : Stmt} {c c₁ b a : Cursor}
      {code : Code} :
      (do
        let elseLabel ← Emit.newLabel
        let _ ← Emit.newLabel
        Emit.atLine mark.line (test.emitCondition tables types scope elseLabel)).run c =
          .ok (code, c₁) →
      Stmt.EmitsWithin thenPart c₁ s' b a →
      Stmt.EmitsWithin (.ifThenElse mark test thenPart elsePart) c s' b a
  | elsePart {mark : Mark} {test : Expr} {thenPart elsePart s' : Stmt} {c c₁ c₂ b a : Cursor}
      {code code' : Code} :
      (do
        let elseLabel ← Emit.newLabel
        let _ ← Emit.newLabel
        Emit.atLine mark.line (test.emitCondition tables types scope elseLabel)).run c =
          .ok (code, c₁) →
      (thenPart.emit tables types scope).run c₁ = .ok (code', c₂) →
      Stmt.EmitsWithin elsePart c₂ s' b a →
      Stmt.EmitsWithin (.ifThenElse mark test thenPart elsePart) c s' b a
  | loop {mark : Mark} {test : Expr} {body s' : Stmt} {c c₁ b a : Cursor} {code : Code} :
      (do
        let _ ← Emit.newLabel
        let endLabel ← Emit.newLabel
        Emit.atLine mark.line (test.emitCondition tables types scope endLabel)).run c =
          .ok (code, c₁) →
      Stmt.EmitsWithin body c₁ s' b a →
      Stmt.EmitsWithin (.loop mark test body) c s' b a

end

/-- The emission of a program goes on to that of a statement in one of its bodies, from a cursor
before it to one after it. -/
def Program.EmitsWithin (p : Program) (tables : Tables) (types : Annotations) (s : Stmt)
    (before after : Cursor) : Prop :=
  ∃ first q rest entry code c, p.procedures = first ++ q :: rest ∧
    (emitProcedures tables types first).run .start = .ok (code, c) ∧
    tables.procedure? q.name = some entry ∧
    (Stmt.block q.mark q.body).EmitsWithin tables types entry.scope c s before after

/-! ### Every statement is emitted -/

section
variable {tables : Tables} {types : Annotations} {scope : ScopeId}

/-- A list of statements is emitted one after the other. -/
lemma run_emitStmts_append {first rest : List Stmt} {s : Stmt} {c c' : Cursor} {code : Code}
    (h : (emitStmts tables types scope (first ++ s :: rest)).run c = .ok (code, c')) :
    ∃ code₁ c₁ code₂ c₂, (emitStmts tables types scope first).run c = .ok (code₁, c₁) ∧
      (s.emit tables types scope).run c₁ = .ok (code₂, c₂) := by
  induction first generalizing c c' code with
  | nil =>
    rw [List.nil_append, emitStmts] at h
    obtain ⟨code₂, c₂, hs, -⟩ := run_bind_eq_ok.mp h
    exact ⟨[], c, code₂, c₂, rfl, hs⟩
  | cons s₀ first ih =>
    rw [List.cons_append, emitStmts] at h
    obtain ⟨code₀, c₀, hs₀, hrest⟩ := run_bind_eq_ok.mp h
    obtain ⟨codeRest, c₁, hothers, -⟩ := run_bind_eq_ok.mp hrest
    obtain ⟨code₁, c₂, code₂, c₃, hfirst, hs⟩ := ih hothers
    refine ⟨code₀ ++ code₁, c₂, code₂, c₃, ?_, hs⟩
    rw [emitStmts]
    exact run_bind_eq_ok.mpr ⟨code₀, c₀, hs₀, run_bind_eq_ok.mpr ⟨code₁, c₂, hfirst, rfl⟩⟩

/-- The emission of a statement that succeeds goes on to every statement in it. -/
lemma Stmt.Within.emitsWithin {s s' : Stmt} (h : s'.Within s) {c c' : Cursor} {code : Code}
    (hrun : (s.emit tables types scope).run c = .ok (code, c')) :
    ∃ before after, s.EmitsWithin tables types scope c s' before after := by
  induction h generalizing c c' code with
  | refl => exact ⟨c, c', .self hrun⟩
  | @block mark body s s' hs _ ih =>
    obtain ⟨first, rest, rfl⟩ := List.append_of_mem hs
    obtain ⟨_, c₁, _, c₂, hfirst, hrunS⟩ := run_emitStmts_append hrun
    obtain ⟨before, after, hwithin⟩ := ih hrunS
    exact ⟨before, after, .block hfirst hwithin⟩
  | ifThen _ ih =>
    rw [Stmt.emit] at hrun
    obtain ⟨endLabel, c₁, hlabel, hrun⟩ := run_bind_eq_ok.mp hrun
    obtain ⟨testCode, c₂, htest, hrun⟩ := run_bind_eq_ok.mp hrun
    obtain ⟨thenCode, c₃, hthen, -⟩ := run_bind_eq_ok.mp hrun
    obtain ⟨before, after, hwithin⟩ := ih hthen
    exact ⟨before, after, .ifThen (run_bind_eq_ok.mpr ⟨endLabel, c₁, hlabel, htest⟩) hwithin⟩
  | thenPart _ ih =>
    rw [Stmt.emit] at hrun
    obtain ⟨elseLabel, c₁, helse, hrun⟩ := run_bind_eq_ok.mp hrun
    obtain ⟨endLabel, c₂, hend, hrun⟩ := run_bind_eq_ok.mp hrun
    obtain ⟨testCode, c₃, htest, hrun⟩ := run_bind_eq_ok.mp hrun
    obtain ⟨thenCode, c₄, hthen, -⟩ := run_bind_eq_ok.mp hrun
    obtain ⟨before, after, hwithin⟩ := ih hthen
    exact ⟨before, after, .thenPart (run_bind_eq_ok.mpr ⟨elseLabel, c₁, helse,
      run_bind_eq_ok.mpr ⟨endLabel, c₂, hend, htest⟩⟩) hwithin⟩
  | elsePart _ ih =>
    rw [Stmt.emit] at hrun
    obtain ⟨elseLabel, c₁, helse, hrun⟩ := run_bind_eq_ok.mp hrun
    obtain ⟨endLabel, c₂, hend, hrun⟩ := run_bind_eq_ok.mp hrun
    obtain ⟨testCode, c₃, htest, hrun⟩ := run_bind_eq_ok.mp hrun
    obtain ⟨thenCode, c₄, hthen, hrun⟩ := run_bind_eq_ok.mp hrun
    obtain ⟨elseCode, c₅, helsePart, -⟩ := run_bind_eq_ok.mp hrun
    obtain ⟨before, after, hwithin⟩ := ih helsePart
    exact ⟨before, after, .elsePart (run_bind_eq_ok.mpr ⟨elseLabel, c₁, helse,
      run_bind_eq_ok.mpr ⟨endLabel, c₂, hend, htest⟩⟩) hthen hwithin⟩
  | loop _ ih =>
    rw [Stmt.emit] at hrun
    obtain ⟨testLabel, c₁, htop, hrun⟩ := run_bind_eq_ok.mp hrun
    obtain ⟨endLabel, c₂, hend, hrun⟩ := run_bind_eq_ok.mp hrun
    obtain ⟨testCode, c₃, htest, hrun⟩ := run_bind_eq_ok.mp hrun
    obtain ⟨bodyCode, c₄, hbody, -⟩ := run_bind_eq_ok.mp hrun
    obtain ⟨before, after, hwithin⟩ := ih hbody
    exact ⟨before, after, .loop (run_bind_eq_ok.mpr ⟨testLabel, c₁, htop,
      run_bind_eq_ok.mpr ⟨endLabel, c₂, hend, htest⟩⟩) hwithin⟩

end

/-- Code that is emitted for a program is emitted for every statement in its bodies. -/
lemma Program.Ready.emitsWithin {p : Program} {tables : Tables} {types : Annotations}
    (h : p.Ready tables types) {a : Assembly} (ha : p.emit tables types = .ok a) {q : Procedure}
    (hq : q ∈ p.procedures) {s : Stmt} (hs : s.Within (.block q.mark q.body)) :
    ∃ before after, p.EmitsWithin tables types s before after := by
  have hnone : firstOverflow? p.demands = none := by
    rcases h.emit_eq with ⟨hfits, -⟩ | ⟨e, -, he⟩
    · exact firstOverflow?_eq_none (p.need_eq ▸ hfits)
    · rw [he] at ha
      cases ha
  obtain ⟨first, rest, hprocedures⟩ := List.append_of_mem hq
  unfold Program.demands at hnone
  rw [hprocedures, List.flatMap_append, List.flatMap_cons, firstOverflow?_append,
    firstOverflow?_append, Option.or_eq_none_iff, Option.or_eq_none_iff] at hnone
  obtain ⟨hfirst, hbody, -⟩ := hnone
  obtain ⟨entry, hentry, hwellTyped⟩ := h.wellTyped q hq
  have hsubset : first ⊆ p.procedures := by
    rw [hprocedures]
    exact List.subset_append_left _ _
  have hbefore : Runs (emitProcedures tables types first) (.at 0 0 0) _ _ :=
    h.emit_procedures hsubset
  obtain ⟨code, c, hrun, -, rfl, -⟩ := hbefore.exists_ok fun e he => by
    rw [hfirst] at he
    cases he
  have hshows := h.laidOut.shows hq (Tables.procedure?_eq_some.mp hentry)
  obtain ⟨bodyCode, c', hbodyRun, -⟩ :=
    (emitStmts_runs hshows hwellTyped (h.notes q hq entry hentry)).exists_ok fun e he => by
      rw [hbody] at he
      cases he
  obtain ⟨before, after, hwithin⟩ := hs.emitsWithin hbodyRun
  exact ⟨before, after, first, q, rest, entry, code, _, hprocedures, hrun, hentry, hwithin⟩

/-! ### Between statements -/

/-- As many registers are in use as the cursor says. -/
lemma Cursor.live_at {n l high : Nat} (hn : n ≤ bankSize) :
    (Cursor.at n l high).registers.live = n := by
  have hlive : ∀ k < bankSize + 1, ((bank k).number - Register.firstFree.number).toNat = k := by
    decide
  exact hlive n (Nat.lt_succ_of_le hn)

/-- A cursor at which no register is in use. -/
def Cursor.AtRest (c : Cursor) : Prop := ∃ l high, c = .at 0 l high

/-- A computation that starts with no register in use ends so if it succeeds. -/
def Emit.Balanced {ε α : Type} (x : EmitWith ε α) : Prop :=
  ∀ c a c', c.AtRest → x.run c = .ok (a, c') → c'.AtRest

/-- A sequence of balanced computations is balanced. -/
lemma Emit.Balanced.bind {ε α β : Type} {x : EmitWith ε α} {f : α → EmitWith ε β}
    (hx : Emit.Balanced x) (hf : ∀ a, Emit.Balanced (f a)) : Emit.Balanced (x >>= f) := by
  intro c b c' hc hrun
  obtain ⟨a, c₁, hx₁, hf₁⟩ := run_bind_eq_ok.mp hrun
  exact hf a c₁ b c' (hx c a c₁ hc hx₁) hf₁

/-- Taking a label is balanced. -/
lemma Emit.balanced_newLabel {ε : Type} : Emit.Balanced (Emit.newLabel (ε := ε)) := by
  rintro c a c' ⟨l, high, rfl⟩ hrun
  have hlabel : Runs (Emit.newLabel (ε := ε)) (.at 0 l high) _ fun _ => True := runs_newLabel
  exact ⟨_, _, (hlabel.of_ok hrun).2⟩

section
variable {tables : Tables} {types : Annotations} {scope : ScopeId}
  {places : List (String × Place)} {signature : String → Option (List Formal)}

/-- A condition is balanced. -/
lemma Expr.balanced_emitCondition (hshows : tables.Shows scope places signature) {test : Expr}
    {t : TypeId} (htest : test.HasType tables scope t)
    (hnotes : tables.Notes scope types test.typedNodes) {line : UInt32} {falseLabel : String} :
    Emit.Balanced (Emit.atLine line (test.emitCondition tables types scope falseLabel)) := by
  rintro c code c' ⟨l, high, rfl⟩ hrun
  exact ⟨_, _, ((runs_atLine (Expr.emitCondition_runs hshows htest hnotes)).of_ok hrun).2.1⟩

/-- A well-typed statement is balanced. -/
lemma Stmt.balanced_emit (hshows : tables.Shows scope places signature) {s : Stmt}
    (hs : s.WellTyped tables scope) (hnotes : tables.Notes scope types s.typedNodes) :
    Emit.Balanced (s.emit tables types scope) := by
  rintro c code c' ⟨l, high, rfl⟩ hrun
  exact ⟨_, _, ((Stmt.emit_runs hshows hs hnotes).of_ok hrun).2.1⟩

/-- A list of well-typed statements is balanced. -/
lemma balanced_emitStmts (hshows : tables.Shows scope places signature) {body : List Stmt}
    (hbody : ∀ s ∈ body, s.WellTyped tables scope)
    (hnotes : tables.Notes scope types (typedNodesOf body)) :
    Emit.Balanced (emitStmts tables types scope body) := by
  rintro c code c' ⟨l, high, rfl⟩ hrun
  exact ⟨_, _, ((emitStmts_runs hshows hbody hnotes).of_ok hrun).2.1⟩

/-- The nodes of lists of statements. -/
lemma typedNodesOf_append {body body' : List Stmt} :
    typedNodesOf (body ++ body') = typedNodesOf body ++ typedNodesOf body' := by
  induction body with
  | nil => rfl
  | cons s body ih =>
    rw [List.cons_append, typedNodesOf, typedNodesOf, ih, List.append_assoc]

/-- No register is in use before and after a statement in another one, if none is before the other
one. -/
lemma Stmt.EmitsWithin.atRest (hshows : tables.Shows scope places signature) {s s' : Stmt}
    {c b a : Cursor} (h : s.EmitsWithin tables types scope c s' b a)
    (hs : s.WellTyped tables scope) (hnotes : tables.Notes scope types s.typedNodes)
    (hc : c.AtRest) : b.AtRest ∧ a.AtRest := by
  -- What comes before a statement in another one is balanced.
  induction h with
  | self hrun => exact ⟨hc, Stmt.balanced_emit hshows hs hnotes _ _ _ hc hrun⟩
  | @block mark first rest s s' c c₁ b a code hrun _ ih =>
    cases hs with
    | block hbody =>
      obtain ⟨hfirst, hothers⟩ := List.forall_mem_append.mp hbody
      rw [Stmt.typedNodes, typedNodesOf_append, typedNodesOf] at hnotes
      have hnotesOthers := hnotes.sub (List.subset_append_right _ _)
      refine ih (hothers s List.mem_cons_self) (hnotesOthers.sub (List.subset_append_left _ _)) ?_
      exact balanced_emitStmts hshows hfirst (hnotes.sub (List.subset_append_left _ _)) _ _ _ hc hrun
  | ifThen hrun _ ih =>
    cases hs with
    | ifThen htest hthen =>
      have hnotesTest := hnotes.sub (List.subset_append_left _ _)
      refine ih hthen (hnotes.sub (List.subset_append_right _ _)) ?_
      exact Emit.balanced_newLabel.bind
        (fun _ => Expr.balanced_emitCondition hshows htest hnotesTest) _ _ _ hc hrun
  | thenPart hrun _ ih =>
    cases hs with
    | ifThenElse htest hthen helse =>
      have hnotesTest := hnotes.sub (List.subset_append_left _ _)
      have hnotesParts := hnotes.sub (List.subset_append_right _ _)
      refine ih hthen (hnotesParts.sub (List.subset_append_left _ _)) ?_
      exact Emit.balanced_newLabel.bind (fun _ => Emit.balanced_newLabel.bind
        fun _ => Expr.balanced_emitCondition hshows htest hnotesTest) _ _ _ hc hrun
  | elsePart hrun hrunThen _ ih =>
    cases hs with
    | ifThenElse htest hthen helse =>
      have hnotesTest := hnotes.sub (List.subset_append_left _ _)
      have hnotesParts := hnotes.sub (List.subset_append_right _ _)
      have hnotesThen := hnotesParts.sub (List.subset_append_left _ _)
      refine ih helse (hnotesParts.sub (List.subset_append_right _ _)) ?_
      refine Stmt.balanced_emit hshows hthen hnotesThen _ _ _ ?_ hrunThen
      exact Emit.balanced_newLabel.bind (fun _ => Emit.balanced_newLabel.bind
        fun _ => Expr.balanced_emitCondition hshows htest hnotesTest) _ _ _ hc hrun
  | loop hrun _ ih =>
    cases hs with
    | loop htest hbody =>
      have hnotesTest := hnotes.sub (List.subset_append_left _ _)
      refine ih hbody (hnotes.sub (List.subset_append_right _ _)) ?_
      exact Emit.balanced_newLabel.bind (fun _ => Emit.balanced_newLabel.bind
        fun _ => Expr.balanced_emitCondition hshows htest hnotesTest) _ _ _ hc hrun

end

/-- No register is in use before and after any statement of a program. -/
lemma Program.Ready.atRest {p : Program} {tables : Tables} {types : Annotations}
    (h : p.Ready tables types) {s : Stmt} {before after : Cursor}
    (hwithin : p.EmitsWithin tables types s before after) : before.AtRest ∧ after.AtRest := by
  obtain ⟨first, q, rest, entry, code, c, hprocedures, hrun, hentry, hbody⟩ := hwithin
  have hq : q ∈ p.procedures := by
    rw [hprocedures]
    exact List.mem_append_right _ List.mem_cons_self
  have hfirst : first ⊆ p.procedures := by
    rw [hprocedures]
    exact List.subset_append_left _ _
  obtain ⟨entry', hentry', hwellTyped⟩ := h.wellTyped q hq
  rw [hentry] at hentry'
  cases hentry'
  have hshows := h.laidOut.shows hq (Tables.procedure?_eq_some.mp hentry)
  refine hbody.atRest hshows (.block hwellTyped) (h.notes q hq entry hentry) ?_
  rw [Cursor.start_eq] at hrun
  exact ⟨_, _, ((h.emit_procedures hfirst).of_ok hrun).2.1⟩

/-- The registers that a program asks for decide how its emission ends.  Once a program has been
declared, checked and laid out, code is emitted for it if and only if every assignment, condition and
call asks for no more registers than there are in the bank; the number that is reported then is the
largest of these demands.  Otherwise the error is blamed on the first statement in pre-order that
asks for too many.  No register is in use before and after any statement that is emitted, which every
statement of the bodies is if code is emitted for the program. -/
theorem Program.register_need (definitions : List Definition) (declared allocated : Tables)
    (types : Annotations)
    (hdeclared : (ofDefinitions definitions).declare.runOn .predefined = (.ok (), declared))
    (hchecked : (ofDefinitions definitions).check declared = .ok types)
    (hallocated : (ofDefinitions definitions).allocate.runOn declared = (.ok (), allocated)) :
    ((∃ a, (ofDefinitions definitions).emit allocated types = .ok a) ↔
      ∀ d ∈ (ofDefinitions definitions).demands, d.registers ≤ bankSize) ∧
    (∀ a, (ofDefinitions definitions).emit allocated types = .ok a →
      a.registersUsed = maxDemand (ofDefinitions definitions).demands) ∧
    (∀ e, (ofDefinitions definitions).emit allocated types = .error e → ∃ before d after,
      (ofDefinitions definitions).demands = before ++ d :: after ∧
      (∀ d' ∈ before, d'.registers ≤ bankSize) ∧ bankSize < d.registers ∧
      e = .atLine d.line .registerOverflow) ∧
    (∀ s before after, (ofDefinitions definitions).EmitsWithin allocated types s before after →
      before.registers.live = 0 ∧ after.registers.live = 0) ∧
    ∀ a, (ofDefinitions definitions).emit allocated types = .ok a →
      ∀ q ∈ (ofDefinitions definitions).procedures, ∀ s : Stmt, s.Within (.block q.mark q.body) →
        ∃ before after, (ofDefinitions definitions).EmitsWithin allocated types s before after := by
  have hready := ready hdeclared hchecked hallocated
  have hneed := (ofDefinitions definitions).need_eq
  have hrest : ∀ c : Cursor, c.AtRest → c.registers.live = 0 := by
    rintro c ⟨l, high, rfl⟩
    exact Cursor.live_at (Nat.zero_le _)
  refine ⟨?_, ?_, ?_, fun s before after hwithin =>
    (hready.atRest hwithin).imp (hrest before) (hrest after),
    fun a ha q hq s hs => hready.emitsWithin ha hq hs⟩
  · rw [← maxDemand_le_iff, ← hneed]
    rcases hready.emit_eq with ⟨hfits, hok⟩ | ⟨e, hfirst, herror⟩
    · exact ⟨fun _ => hfits, fun _ => ⟨_, hok⟩⟩
    · constructor
      · rintro ⟨a, ha⟩
        rw [herror] at ha
        cases ha
      · intro hfits
        rw [firstOverflow?_eq_none (hneed ▸ hfits)] at hfirst
        cases hfirst
  · intro a ha
    rcases hready.emit_eq with ⟨-, hok⟩ | ⟨e, -, herror⟩
    · rw [hok] at ha
      cases ha
      exact hneed
    · rw [herror] at ha
      cases ha
  · intro e he
    rcases hready.emit_eq with ⟨-, hok⟩ | ⟨e', hfirst, herror⟩
    · rw [hok] at he
      cases he
    · rw [herror] at he
      cases he
      exact firstOverflow?_eq_some_iff.mp hfirst

/-- A sum that is nested to the right, so that every term of it stays in a register. -/
def deepSum (line : UInt32) : Nat → Expr
  | 0 => .int (.atLine line) 1
  | n + 1 => .binary (.atLine line) .add (.int (.atLine line) 1) (deepSum line n)

/-- A program whose second assignment takes all the registers of the bank, and whose third one takes
one more. -/
def overfull : List Definition :=
  [.procedure
    { mark := .atLine 1
      name := "main"
      parameters := []
      locals := [⟨.atLine 2, "i", .named (.atLine 2) "int"⟩]
      body := [
        .assign (.atLine 3) (.named (.atLine 3) "i") (.int (.atLine 3) 1),
        .assign (.atLine 4) (.named (.atLine 4) "i") (deepSum 4 14),
        .assign (.atLine 5) (.named (.atLine 5) "i") (deepSum 5 15)] }]

/-- The third assignment is the one that is blamed. -/
theorem Program.register_need_overfull : ∃ types allocated,
    (ofDefinitions overfull).emit allocated types = .error (.atLine 5 .registerOverflow) := by
  obtain ⟨declared, types, allocated, hdeclared, hchecked, hallocated⟩ :=
    exists_passes (p := ofDefinitions overfull) (by decide +kernel)
  obtain ⟨haccepted, -, hblamed, -⟩ :=
    register_need overfull declared allocated types hdeclared hchecked hallocated
  have hfirst : firstOverflow? (ofDefinitions overfull).demands =
      some (.atLine 5 .registerOverflow) := by
    decide +kernel
  refine ⟨types, allocated, ?_⟩
  cases hemitted : (ofDefinitions overfull).emit allocated types with
  | ok a =>
    have hnone := firstOverflow?_eq_none (maxDemand_le_iff.mpr (haccepted.mp ⟨a, hemitted⟩))
    rw [hfirst] at hnone
    cases hnone
  | error e =>
    have hsome := firstOverflow?_eq_some_iff.mpr (hblamed e hemitted)
    rw [hfirst] at hsome
    cases hsome
    rfl

end TreeCompiler
