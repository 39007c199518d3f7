import TreeCompiler.Proofs.Emission.Demand
import TreeCompiler.Proofs.Threading
import TreeCompiler.Proofs.Typing.Decision

/-!
# What is emitted

Emitting the code of a well-typed construct whose variables have their places fails only where the
registers of the bank do not suffice, and otherwise gives the code of the closed form.  Both are
shown together, construct by construct: `Cursor.at` is the cursor between constructs, and every
lemma says how many registers and labels are taken from it.  A statement fails with the error for the
first of its demands that the bank cannot meet.
-/

namespace TreeCompiler

/-! ### The cursor -/

/-- The cursor with so many registers in use, so many labels taken, and so many registers that have
been in use at the same time. -/
def Cursor.at (n l high : Nat) : Cursor :=
  ⟨⟨Register.firstFree.number, Register.lastFree.number, (bank n).number, high⟩, l⟩

/-- A program starts with no registers in use and no labels taken. -/
lemma Cursor.start_eq : Cursor.start = .at 0 0 0 := rfl

section
variable {n l high : Nat}

/-- The bank has so many registers. -/
private lemma bank_push : ∀ n < bankSize + 1,
    ((bank n).number > Register.lastFree.number ↔ n = bankSize) ∧
      (bank n).number + 1 = (bank (n + 1)).number ∧
      ((bank (n + 1)).number - Register.firstFree.number).toNat = n + 1 := by
  decide

/-- Registers are taken back in the opposite order. -/
private lemma bank_pop : ∀ n < bankSize,
    (bank (n + 1)).number ≠ Register.firstFree.number ∧
      (bank (n + 1)).number - 1 = (bank n).number := by
  decide

/-- A register can be put into use as long as there is one left in the bank. -/
lemma runs_push (hn : n ≤ bankSize) :
    Runs Emit.push (.at n l high)
      (fun r c => r = bank n ∧ c = .at (n + 1) l (max high (n + 1)) ∧ n + 1 ≤ bankSize)
      (fun e => e = .registerOverflow ∧ bankSize < n + 1) := by
  obtain ⟨hlast, hnext, hlive⟩ := bank_push n (Nat.lt_succ_of_le hn)
  unfold Emit.push
  rw [runs_bind, runs_get]
  by_cases hfull : n = bankSize
  · have hpush : (Cursor.at n l high).registers.push = none := by
      unfold RegisterStack.push Cursor.at
      exact if_pos (hlast.mpr hfull)
    rw [hpush]
    exact ⟨rfl, hfull ▸ Nat.lt_succ_self _⟩
  · have hpush : (Cursor.at n l high).registers.push =
        some ((bank n).number, (Cursor.at (n + 1) l (max high (n + 1))).registers) := by
      unfold RegisterStack.push Cursor.at RegisterStack.live
      dsimp only
      rw [if_neg (fun h => hfull (hlast.mp h)), hnext, hlive]
    rw [hpush]
    exact ⟨rfl, rfl, Nat.lt_of_le_of_ne hn hfull⟩

/-- A register that is in use can be taken back. -/
lemma runs_pop {bad : EmissionError → Prop} (hn : n + 1 ≤ bankSize) :
    Runs Emit.pop (.at (n + 1) l high) (fun _ c => c = .at n l high) bad := by
  obtain ⟨hfirst, hnext⟩ := bank_pop n hn
  have hpop : (Cursor.at (n + 1) l high).registers.pop =
      some ((bank n).number, (Cursor.at n l high).registers) := by
    unfold RegisterStack.pop Cursor.at
    dsimp only
    rw [if_neg hfirst, hnext]
  unfold Emit.pop
  rw [runs_bind, runs_get, hpop]
  rfl

/-- A new label is the next one. -/
lemma runs_newLabel {ε : Type} {bad : ε → Prop} :
    Runs (Emit.newLabel (ε := ε)) (.at n l high)
      (fun name c => name = labelName l ∧ c = .at n (l + 1) high) bad := ⟨rfl, rfl⟩

/-- What is there can be required. -/
lemma runs_require {α : Type} {a : α} {error : EmissionError} {o : Option α} {c : Cursor}
    {bad : EmissionError → Prop} (h : o = some a) :
    Runs (Emit.require error o) c (fun b c' => b = a ∧ c' = c) bad := by
  rw [h]
  exact ⟨rfl, rfl⟩

/-- Blaming a line changes only what a failure says. -/
lemma runs_atLine {α : Type} {e : Emit α} {line : UInt32} {c : Cursor} {ok : α → Cursor → Prop}
    {bad : EmissionError → Prop} (h : Runs e c ok bad) :
    Runs (Emit.atLine line e) c ok (fun x => ∃ cause, bad cause ∧ x = .atLine line cause) := by
  have hrun : (Emit.atLine line e).run c = (e.run c).mapError (.atLine line) := rfl
  unfold Runs at h ⊢
  rw [hrun]
  cases hc : e.run c with
  | error x =>
    rw [hc] at h
    exact ⟨x, h, rfl⟩
  | ok r =>
    rw [hc] at h
    exact h

/-- Running out of registers in a statement is an error at the line of the statement. -/
lemma runs_demand {α : Type} {e : Emit α} {line : UInt32} {n : Nat} {rest : List Demand}
    {c : Cursor} {ok : α → Cursor → Prop}
    (h : Runs e c ok (fun x => x = .registerOverflow ∧ bankSize < n)) :
    Runs (Emit.atLine line e) c ok (fun x => firstOverflow? (⟨line, n⟩ :: rest) = some x) := by
  refine (runs_atLine h).mono (fun _ _ h => h) fun x hx => ?_
  obtain ⟨cause, ⟨rfl, hlarge⟩, rfl⟩ := hx
  exact firstOverflow?_cons_of_lt (d := ⟨line, n⟩) hlarge

end

/-- Cursors that agree in what has been taken are the same. -/
lemma Cursor.at_congr {n l l' high high' : Nat} (hl : l = l') (hhigh : high = high') :
    Cursor.at n l high = .at n l' high' := by
  rw [hl, hhigh]

/-! ### What the tables say about names -/

/-- The tables say about the names in a scope what places and signatures do. -/
structure Tables.Shows (tables : Tables) (scope : ScopeId) (places : List (String × Place))
    (signature : String → Option (List Formal)) : Prop where
  wellFormed : tables.types.WellFormed
  place : ∀ name slot, tables.lookup scope name = some (.var slot) →
    ∃ p, places.lookup name = some p ∧ slot.offset = some p.offset ∧
      slot.isReference = p.isReference ∧ tables.types.shape? slot.type = some p.shape
  procedure : ∀ name entry, tables.lookup scope name = some (.procedure entry) →
    tables.procedure? name = some entry ∧
      entry.parameters.map Slot.offset = (wordsFrom 0 entry.parameters.length).map some ∧
      ∃ formals, signature name = some formals ∧ List.Forall₂
        (fun slot f => slot.isReference = f.isReference ∧
          tables.types.shape? slot.type = some f.shape) entry.parameters formals

section
variable {tables : Tables} {scope : ScopeId} {places : List (String × Place)}
  {signature : String → Option (List Formal)} {types : Annotations}

mutual

/-- A variable of a type is of the type's shape. -/
lemma Variable.HasType.shape?_eq (hshows : tables.Shows scope places signature) {v : Variable}
    {t : TypeId} (hv : v.HasType tables scope t) :
    ∃ s, v.shape? places = some s ∧ tables.types.shape? t = some s := by
  match v, hv with
  | .named _ name, @Variable.HasType.named _ _ _ _ slot hslot =>
    obtain ⟨p, hp, -, -, hshape⟩ := hshows.place name slot hslot
    refine ⟨p.shape, ?_, hshape⟩
    rw [Variable.shape?, hp]
    rfl
  | .element _ array index, .element harray hinfo hindex =>
    obtain ⟨s, hbase, htype, -⟩ := hshows.wellFormed.array?_spec hinfo
    obtain ⟨s₁, harrayShape, htype₁⟩ := harray.shape?_eq hshows
    obtain ⟨s₂, hindexShape, htype₂⟩ := hindex.shape?_eq hshows
    rw [htype] at htype₁
    cases htype₁
    rw [TypeTable.shape?_int] at htype₂
    cases htype₂
    refine ⟨s, ?_, hbase⟩
    rw [Variable.shape?, harrayShape, hindexShape]

/-- An expression of a type is of the type's shape. -/
lemma Expr.HasType.shape?_eq (hshows : tables.Shows scope places signature) {e : Expr}
    {t : TypeId} (he : e.HasType tables scope t) :
    ∃ s, e.shape? places = some s ∧ tables.types.shape? t = some s := by
  match e, he with
  | .int _ _, .int => exact ⟨.int, rfl, TypeTable.shape?_int⟩
  | .bool _ _, .bool => exact ⟨.bool, rfl, TypeTable.shape?_bool⟩
  | .read _ _, .read hsource => exact hsource.shape?_eq hshows
  | .negate _ _, .negate hoperand =>
    obtain ⟨s, hs, htype⟩ := hoperand.shape?_eq hshows
    rw [TypeTable.shape?_int] at htype
    cases htype
    refine ⟨.int, ?_, TypeTable.shape?_int⟩
    rw [Expr.shape?, hs]
  | .binary _ op _ _, .arithmetic hop hleft hright =>
    obtain ⟨s, hs, htype⟩ := hleft.shape?_eq hshows
    obtain ⟨s', hs', htype'⟩ := hright.shape?_eq hshows
    rw [TypeTable.shape?_int] at htype htype'
    cases htype
    cases htype'
    refine ⟨.int, ?_, TypeTable.shape?_int⟩
    rw [Expr.shape?, hs, hs']
    simp [hop]
  | .binary _ op _ _, .comparison hop hleft hright =>
    obtain ⟨s, hs, htype⟩ := hleft.shape?_eq hshows
    obtain ⟨s', hs', htype'⟩ := hright.shape?_eq hshows
    rw [TypeTable.shape?_int] at htype htype'
    cases htype
    cases htype'
    refine ⟨.bool, ?_, TypeTable.shape?_bool⟩
    rw [Expr.shape?, hs, hs']
    simp [hop]

end

/-- An integer expression is of that shape. -/
lemma Expr.HasType.shape?_int (hshows : tables.Shows scope places signature) {e : Expr}
    (he : e.HasType tables scope .int) : e.shape? places = some .int := by
  obtain ⟨s, hs, htype⟩ := he.shape?_eq hshows
  rw [TypeTable.shape?_int] at htype
  cases htype
  exact hs

/-! ### Expressions -/

/-- The operands of an operator are integers. -/
lemma Expr.HasType.operands {mark : Mark} {op : BinaryOp} {left right : Expr} {t : TypeId}
    (h : (Expr.binary mark op left right).HasType tables scope t) :
    left.HasType tables scope .int ∧ right.HasType tables scope .int := by
  cases h with
  | arithmetic _ hleft hright => exact ⟨hleft, hright⟩
  | comparison _ hleft hright => exact ⟨hleft, hright⟩

/-- The operators that have an instruction are not comparisons, and take no labels. -/
lemma BinaryOp.arith?_eq_some {op : BinaryOp} {arith : ArithOp} (h : op.arith? = some arith) :
    op.isComparison = false := by
  cases op <;> cases h <;> rfl

/-- The operators that have no instruction are comparisons. -/
lemma BinaryOp.arith?_eq_none {op : BinaryOp} (h : op.arith? = none) :
    op.isComparison = true := by
  cases op <;> cases h <;> rfl

/-- The types of nodes are noted under their numbers. -/
def Tables.Notes (tables : Tables) (scope : ScopeId) (types : Annotations)
    (nodes : List TypedNode) : Prop :=
  ∀ x ∈ nodes, ∀ t, x.HasType tables scope t → types.find? x.id = some t

/-- A variable is the first of its own nodes. -/
lemma Variable.place_mem_typedNodes (v : Variable) : .place v ∈ v.typedNodes := by
  cases v <;> exact List.mem_cons_self

mutual

/-- The code of a variable takes a register at least. -/
lemma Variable.need_pos (v : Variable) : 0 < v.need := by
  match v with
  | .named _ _ => exact Nat.one_pos
  | .element _ array index =>
    rw [Variable.need]
    omega

/-- The code of an expression takes a register at least. -/
lemma Expr.need_pos (e : Expr) : 0 < e.need := by
  match e with
  | .int _ _ => exact Nat.one_pos
  | .bool _ _ => exact Nat.one_pos
  | .read _ source => exact source.need_pos
  | .negate _ operand => exact operand.need_pos
  | .binary _ op left right =>
    rw [Expr.need]
    omega

end

mutual

/-- The code of a variable is what the closed form says, if the registers suffice. -/
lemma Variable.emit_runs (hshows : tables.Shows scope places signature) {v : Variable} {t : TypeId}
    (hv : v.HasType tables scope t) (hnotes : tables.Notes scope types v.typedNodes)
    {n l high : Nat} (hn : n ≤ bankSize) :
    Runs (v.emit tables types scope) (.at n l high)
      (fun r c => r = (bank n, v.code places n l) ∧
        c = .at (n + 1) (l + v.labels) (max high (n + v.need)) ∧ n + v.need ≤ bankSize)
      (fun e => e = .registerOverflow ∧ bankSize < n + v.need) := by
  match v, hv with
  | .named _ name, @Variable.HasType.named _ _ _ _ slot hslot =>
    obtain ⟨p, hp, hoffset, href, -⟩ := hshows.place name slot hslot
    rw [Variable.emit, hslot]
    dsimp only
    rw [runs_bind]
    refine (runs_require hoffset).mono (fun offset c₁ h₁ => ?_) fun _ h => h
    obtain ⟨rfl, rfl⟩ := h₁
    rw [runs_bind]
    refine (runs_push hn).mono (fun r c₂ h₂ => ?_) fun _ h => h
    obtain ⟨rfl, rfl, hfits⟩ := h₂
    rw [runs_pure, Variable.code, hp, href]
    exact ⟨rfl, rfl, hfits⟩
  | .element _ array index, @Variable.HasType.element _ _ _ _ _ type info harray hinfo hindex =>
    have hnotesArray : tables.Notes scope types array.typedNodes := fun x hx =>
      hnotes x (List.mem_cons_of_mem _ (List.mem_append_left _ hx))
    have hnotesIndex : tables.Notes scope types index.typedNodes := fun x hx =>
      hnotes x (List.mem_cons_of_mem _ (List.mem_append_right _ hx))
    have hfound : types.find? array.mark.id = some type :=
      hnotesArray _ array.place_mem_typedNodes type harray
    obtain ⟨s, hs, htype⟩ := harray.shape?_eq hshows
    obtain ⟨base, hbase, hshape, -⟩ := hshows.wellFormed.array?_spec hinfo
    rw [htype] at hshape
    cases hshape
    have hneed := array.need_pos
    rw [Variable.emit, runs_bind]
    refine (runs_require hfound).mono (fun _ c₁ h₁ => ?_) fun _ h => h
    obtain ⟨rfl, rfl⟩ := h₁
    rw [runs_bind]
    refine (runs_require hinfo).mono (fun _ c₂ h₂ => ?_) fun _ h => h
    obtain ⟨rfl, rfl⟩ := h₂
    rw [runs_bind]
    refine (Variable.emit_runs hshows harray hnotesArray hn).mono (fun r₁ c₃ h₃ => ?_) fun e he =>
      ⟨he.1, by rw [Variable.need]; omega⟩
    obtain ⟨rfl, rfl, hfits₁⟩ := h₃
    rw [runs_bind]
    refine (Expr.emit_runs hshows hindex hnotesIndex (by omega)).mono (fun r₂ c₄ h₄ => ?_)
      fun e he => ⟨he.1, by rw [Variable.need]; omega⟩
    obtain ⟨rfl, rfl, hfits₂⟩ := h₄
    have hneed₂ := index.need_pos
    rw [runs_bind]
    refine (runs_push (by omega)).mono (fun r₃ c₅ h₅ => ?_)
      fun e he => ⟨he.1, by rw [Variable.need]; omega⟩
    obtain ⟨rfl, rfl, hfits₃⟩ := h₅
    rw [runs_bind]
    refine (runs_pop hfits₃).mono (fun _ c₆ h₆ => ?_) fun _ h => h
    subst h₆
    rw [runs_bind]
    refine (runs_pop (by omega)).mono (fun _ c₇ h₇ => ?_) fun _ h => h
    subst h₇
    rw [runs_pure]
    refine ⟨?_, Cursor.at_congr (by rw [Variable.labels]; omega) (by rw [Variable.need]; omega),
      by rw [Variable.need]; omega⟩
    rw [Variable.code, hs, hshows.wellFormed.byteSize_eq hbase]
    rfl

/-- The code of an expression is what the closed form says, if the registers suffice. -/
lemma Expr.emit_runs (hshows : tables.Shows scope places signature) {e : Expr} {t : TypeId}
    (he : e.HasType tables scope t) (hnotes : tables.Notes scope types e.typedNodes)
    {n l high : Nat} (hn : n ≤ bankSize) :
    Runs (e.emit tables types scope) (.at n l high)
      (fun r c => r = (bank n, e.code places n l) ∧
        c = .at (n + 1) (l + e.labels) (max high (n + e.need)) ∧ n + e.need ≤ bankSize)
      (fun e' => e' = .registerOverflow ∧ bankSize < n + e.need) := by
  match e, he with
  | .int _ value, _ =>
    rw [Expr.emit, runs_bind]
    refine (runs_push hn).mono (fun r c₁ h₁ => ?_) fun _ h => h
    obtain ⟨rfl, rfl, hfits⟩ := h₁
    exact ⟨rfl, rfl, hfits⟩
  | .bool _ value, _ =>
    rw [Expr.emit, runs_bind]
    refine (runs_push hn).mono (fun r c₁ h₁ => ?_) fun _ h => h
    obtain ⟨rfl, rfl, hfits⟩ := h₁
    exact ⟨rfl, rfl, hfits⟩
  | .read _ source, .read hsource =>
    have hnotesSource : tables.Notes scope types source.typedNodes := fun x hx =>
      hnotes x (List.mem_cons_of_mem _ hx)
    rw [Expr.emit, runs_bind]
    refine (Variable.emit_runs hshows hsource hnotesSource hn).mono (fun r c₁ h₁ => ?_) fun _ h => h
    obtain ⟨rfl, rfl, hfits⟩ := h₁
    exact ⟨rfl, rfl, hfits⟩
  | .negate _ operand, .negate hoperand =>
    have hnotesOperand : tables.Notes scope types operand.typedNodes := fun x hx =>
      hnotes x (List.mem_cons_of_mem _ hx)
    rw [Expr.emit, runs_bind]
    refine (Expr.emit_runs hshows hoperand hnotesOperand hn).mono (fun r c₁ h₁ => ?_) fun _ h => h
    obtain ⟨rfl, rfl, hfits⟩ := h₁
    exact ⟨rfl, rfl, hfits⟩
  | .binary mark op left right, he =>
    obtain ⟨hleft, hright⟩ := he.operands
    have hnotesLeft : tables.Notes scope types left.typedNodes := fun x hx =>
      hnotes x (List.mem_cons_of_mem _ (List.mem_append_left _ hx))
    have hnotesRight : tables.Notes scope types right.typedNodes := fun x hx =>
      hnotes x (List.mem_cons_of_mem _ (List.mem_append_right _ hx))
    have hneed := left.need_pos
    rw [Expr.emit, runs_bind]
    refine (Expr.emit_runs hshows hleft hnotesLeft hn).mono (fun r₁ c₁ h₁ => ?_) fun e he =>
      ⟨he.1, by rw [Expr.need]; omega⟩
    obtain ⟨rfl, rfl, hfits₁⟩ := h₁
    rw [runs_bind]
    refine (Expr.emit_runs hshows hright hnotesRight (by omega)).mono (fun r₂ c₂ h₂ => ?_)
      fun e he => ⟨he.1, by rw [Expr.need]; omega⟩
    obtain ⟨rfl, rfl, hfits₂⟩ := h₂
    have hneed₂ := right.need_pos
    have hfits : n + (Expr.binary mark op left right).need ≤ bankSize := by
      rw [Expr.need]
      omega
    have hhigh : max (max high (n + left.need)) (n + 1 + right.need) =
        max high (n + (Expr.binary mark op left right).need) := by
      rw [Expr.need]
      omega
    cases hop : op.arith? with
    | some arith =>
      dsimp only
      rw [runs_bind, runs_pure, runs_bind]
      refine (runs_pop (by omega)).mono (fun _ c₃ h₃ => ?_) fun _ h => h
      subst h₃
      rw [runs_pure, Expr.code, BinaryOp.code, hop]
      refine ⟨rfl, Cursor.at_congr ?_ hhigh, hfits⟩
      rw [Expr.labels, BinaryOp.arith?_eq_some hop]
      simp [Nat.add_assoc]
    | none =>
      dsimp only
      rw [runs_bind]
      refine runs_newLabel.mono (fun _ c₃ h₃ => ?_) fun _ h => h
      obtain ⟨rfl, rfl⟩ := h₃
      rw [runs_bind]
      refine runs_newLabel.mono (fun _ c₄ h₄ => ?_) fun _ h => h
      obtain ⟨rfl, rfl⟩ := h₄
      rw [runs_bind, runs_pure, runs_bind]
      refine (runs_pop (by omega)).mono (fun _ c₅ h₅ => ?_) fun _ h => h
      subst h₅
      rw [runs_pure, Expr.code, BinaryOp.code, hop]
      refine ⟨rfl, Cursor.at_congr ?_ hhigh, hfits⟩
      rw [Expr.labels, BinaryOp.arith?_eq_none hop]
      simp [Nat.add_assoc]

end

/-! ### Statements -/

/-- The code of an expression that is compared with zero. -/
private lemma Expr.emitZeroTest_runs (hshows : tables.Shows scope places signature) {test : Expr}
    {t : TypeId} (htest : test.HasType tables scope t)
    (hnotes : tables.Notes scope types test.typedNodes) {falseLabel : String} {n l high : Nat}
    (hn : n ≤ bankSize) :
    Runs (Expr.emitCondition.emitZeroTest tables types scope falseLabel test) (.at n l high)
      (fun code c => code = test.code places n l ++ [.branch .eq (bank n) .zero falseLabel] ∧
        c = .at n (l + test.labels) (max high (n + test.need)) ∧ n + test.need ≤ bankSize)
      (fun e => e = .registerOverflow ∧ bankSize < n + test.need) := by
  unfold Expr.emitCondition.emitZeroTest
  rw [runs_bind]
  refine (Expr.emit_runs hshows htest hnotes hn).mono (fun r c h => ?_) fun _ h => h
  obtain ⟨rfl, rfl, hfits⟩ := h
  have hneed := test.need_pos
  rw [runs_bind]
  refine (runs_pop (by omega)).mono (fun _ c₁ h₁ => ?_) fun _ h => h
  subst h₁
  rw [runs_pure]
  exact ⟨rfl, rfl, hfits⟩

/-- The code of a condition is its test and its branch, if the registers suffice, and no register
stays in use. -/
lemma Expr.emitCondition_runs_at (hshows : tables.Shows scope places signature) {test : Expr}
    {t : TypeId} (htest : test.HasType tables scope t)
    (hnotes : tables.Notes scope types test.typedNodes) {falseLabel : String} {n l high : Nat}
    (hn : n ≤ bankSize) :
    Runs (test.emitCondition tables types scope falseLabel) (.at n l high)
      (fun code c => code = test.testCode places n l ++ [test.testBranch falseLabel n] ∧
        c = .at n (l + test.conditionLabels) (max high (n + test.need)) ∧ n + test.need ≤ bankSize)
      (fun e => e = .registerOverflow ∧ bankSize < n + test.need) := by
  match test with
  | .int _ _ => exact Expr.emitZeroTest_runs hshows htest hnotes hn
  | .bool _ _ => exact Expr.emitZeroTest_runs hshows htest hnotes hn
  | .read _ _ => exact Expr.emitZeroTest_runs hshows htest hnotes hn
  | .negate _ _ => exact Expr.emitZeroTest_runs hshows htest hnotes hn
  | .binary mark op left right =>
    rw [Expr.emitCondition, Expr.testCode, Expr.testBranch, Expr.conditionLabels]
    by_cases hop : op.isComparison = true
    · rw [if_pos hop, if_pos hop, if_pos hop, if_pos hop]
      obtain ⟨hleft, hright⟩ := htest.operands
      have hnotesLeft : tables.Notes scope types left.typedNodes := fun x hx =>
        hnotes x (List.mem_cons_of_mem _ (List.mem_append_left _ hx))
      have hnotesRight : tables.Notes scope types right.typedNodes := fun x hx =>
        hnotes x (List.mem_cons_of_mem _ (List.mem_append_right _ hx))
      have hneed := left.need_pos
      rw [runs_bind, Expr.need]
      refine (Expr.emit_runs hshows hleft hnotesLeft hn).mono (fun r₁ c₁ h₁ => ?_)
        fun e he => ⟨he.1, by omega⟩
      obtain ⟨rfl, rfl, hfits₁⟩ := h₁
      rw [runs_bind]
      refine (Expr.emit_runs hshows hright hnotesRight (by omega)).mono (fun r₂ c₂ h₂ => ?_)
        fun e he => ⟨he.1, by omega⟩
      obtain ⟨rfl, rfl, hfits₂⟩ := h₂
      have hneed₂ := right.need_pos
      rw [runs_bind]
      refine (runs_pop (by omega)).mono (fun _ c₃ h₃ => ?_) fun _ h => h
      subst h₃
      rw [runs_bind]
      refine (runs_pop (by omega)).mono (fun _ c₄ h₄ => ?_) fun _ h => h
      subst h₄
      rw [runs_pure]
      exact ⟨rfl, Cursor.at_congr (by omega) (by omega), by omega⟩
    · rw [if_neg hop, if_neg hop, if_neg hop, if_neg hop]
      exact Expr.emitZeroTest_runs hshows htest hnotes hn

/-- The code of a condition is what the closed form says, if the registers suffice. -/
lemma Expr.emitCondition_runs (hshows : tables.Shows scope places signature) {test : Expr}
    {t : TypeId} (htest : test.HasType tables scope t)
    (hnotes : tables.Notes scope types test.typedNodes) {falseLabel : String} {l high : Nat} :
    Runs (test.emitCondition tables types scope falseLabel) (.at 0 l high)
      (fun code c => code = test.conditionCode places falseLabel l ∧
        c = .at 0 (l + test.conditionLabels) (max high test.need) ∧ test.need ≤ bankSize)
      (fun e => e = .registerOverflow ∧ bankSize < test.need) := by
  have hruns : Runs (test.emitCondition tables types scope falseLabel) (.at 0 l high) _ _ :=
    Expr.emitCondition_runs_at hshows htest hnotes (Nat.zero_le bankSize)
  simp only [Nat.zero_add, ← Expr.conditionCode_eq] at hruns
  exact hruns

/-- The code of an assignment is what the closed form says, if the registers suffice. -/
lemma emitAssignment_runs (hshows : tables.Shows scope places signature) {target : Variable}
    {value : Expr} {t t' : TypeId} (htarget : target.HasType tables scope t)
    (hvalue : value.HasType tables scope t')
    (hnotesTarget : tables.Notes scope types target.typedNodes)
    (hnotesValue : tables.Notes scope types value.typedNodes) {l high : Nat} :
    Runs (emitAssignment tables types scope target value) (.at 0 l high)
      (fun code c => code = target.code places 0 l ++ value.code places 1 (l + target.labels) ++
          [.store (bank 1) (bank 0) 0] ∧
        c = .at 0 (l + (target.labels + value.labels)) (max high (max target.need (1 + value.need))) ∧
        max target.need (1 + value.need) ≤ bankSize)
      (fun e => e = .registerOverflow ∧ bankSize < max target.need (1 + value.need)) := by
  have hneed := target.need_pos
  unfold emitAssignment
  rw [runs_bind]
  refine (Variable.emit_runs hshows htarget hnotesTarget (Nat.zero_le _)).mono (fun r₁ c₁ h₁ => ?_)
    fun e he => ⟨he.1, by omega⟩
  obtain ⟨rfl, rfl, hfits₁⟩ := h₁
  rw [runs_bind]
  refine (Expr.emit_runs hshows hvalue hnotesValue (by omega)).mono (fun r₂ c₂ h₂ => ?_)
    fun e he => ⟨he.1, by omega⟩
  obtain ⟨rfl, rfl, hfits₂⟩ := h₂
  have hneed₂ := value.need_pos
  rw [runs_bind]
  refine (runs_pop (by omega)).mono (fun _ c₃ h₃ => ?_) fun _ h => h
  subst h₃
  rw [runs_bind]
  refine (runs_pop (by omega)).mono (fun _ c₄ h₄ => ?_) fun _ h => h
  subst h₄
  rw [runs_pure]
  exact ⟨rfl, Cursor.at_congr (by omega) (by omega), by omega⟩

/-- The expressions that are plain variables read them. -/
lemma Expr.variable?_eq_some {e : Expr} {v : Variable} :
    e.variable? = some v ↔ ∃ mark, e = .read mark v := by
  cases e <;> simp [ Expr.variable?]

/-- Emits the code of an argument: its value, or its address if the parameter is a reference. -/
def emitArgument (tables : Tables) (types : Annotations) (scope : ScopeId) (callee : String)
    (parameter : Slot) (argument : Expr) : Emit (Register × Code) :=
  if parameter.isReference then do
    let v ← Emit.require (.referenceArgumentNotVariable callee) argument.variable?
    v.emit tables types scope
  else
    argument.emit tables types scope

/-- The code of arguments is that of the first one, its store, and that of the others. -/
lemma emitArguments_cons {callee : String} {parameter : Slot} {parameters : List Slot}
    {argument : Expr} {arguments : List Expr} :
    emitArguments tables types scope callee (parameter :: parameters) (argument :: arguments) = do
      let (r, code) ← emitArgument tables types scope callee parameter argument
      let offset ← Emit.require (.missingOffset callee) parameter.offset
      Emit.pop
      let rest ← emitArguments tables types scope callee parameters arguments
      return code ++ .store r .sp offset :: rest := by
  rw [emitArguments, emitArgument]
  split
  · rw [bind_assoc]
  · rfl

/-- The code of an argument is what the closed form says, if the registers suffice. -/
lemma Slot.Accepts.emit_runs (hshows : tables.Shows scope places signature) {parameter : Slot}
    {argument : Expr} (haccepts : parameter.Accepts tables scope argument) {f : Formal}
    (hf : parameter.isReference = f.isReference)
    (hnotes : tables.Notes scope types argument.typedNodes) {callee : String} {l high : Nat} :
    Runs (emitArgument tables types scope callee parameter argument) (.at 0 l high)
      (fun r c => r = (bank 0, f.argumentCode places argument l) ∧
        c = .at 1 (l + argument.labels) (max high argument.need) ∧ argument.need ≤ bankSize)
      (fun e => e = .registerOverflow ∧ bankSize < argument.need) := by
  obtain ⟨htype, hvariable⟩ := haccepts
  unfold emitArgument Formal.argumentCode
  rw [← hf]
  split
  · rename_i href
    obtain ⟨v, hv⟩ := Option.isSome_iff_exists.mp (hvariable href)
    obtain ⟨mark, rfl⟩ := Expr.variable?_eq_some.mp hv
    have hnotesSource : tables.Notes scope types v.typedNodes := fun x hx =>
      hnotes x (List.mem_cons_of_mem _ hx)
    cases htype with
    | read hsource =>
      rw [runs_bind]
      refine (runs_require hv).mono (fun _ c₁ h₁ => ?_) fun _ h => h
      obtain ⟨rfl, rfl⟩ := h₁
      refine (Variable.emit_runs hshows hsource hnotesSource (Nat.zero_le _)).mono
        (fun r c h => ?_) fun e he => ⟨he.1, by rw [Expr.need]; omega⟩
      obtain ⟨rfl, rfl, hfits⟩ := h
      exact ⟨rfl, Cursor.at_congr rfl (by rw [Expr.need]; omega), by rw [Expr.need]; omega⟩
  · refine (Expr.emit_runs hshows htype hnotes (Nat.zero_le _)).mono (fun r c h => ?_)
      fun e he => ⟨he.1, by omega⟩
    obtain ⟨rfl, rfl, hfits⟩ := h
    exact ⟨rfl, Cursor.at_congr rfl (by omega), by omega⟩

/-- The code of arguments is what the closed form says, if the registers suffice. -/
lemma emitArguments_runs (hshows : tables.Shows scope places signature) {callee : String}
    {parameters : List Slot} {arguments : List Expr} {formals : List Formal} {offset : Int}
    (haccepts : List.Forall₂ (Slot.Accepts tables scope) parameters arguments)
    (hformals : List.Forall₂ (fun slot f => slot.isReference = f.isReference ∧
      tables.types.shape? slot.type = some f.shape) parameters formals)
    (hoffsets : parameters.map Slot.offset = (wordsFrom offset parameters.length).map some)
    (hnotes : tables.Notes scope types (arguments.flatMap Expr.typedNodes)) {l high : Nat} :
    Runs (emitArguments tables types scope callee parameters arguments) (.at 0 l high)
      (fun code c => code = argumentsCode places formals arguments offset l ∧
        c = .at 0 (l + argumentsLabels arguments) (max high (argumentsNeed arguments)) ∧
        argumentsNeed arguments ≤ bankSize)
      (fun e => e = .registerOverflow ∧ bankSize < argumentsNeed arguments) := by
  induction haccepts generalizing formals offset l high with
  | nil =>
    cases hformals
    exact ⟨rfl, Cursor.at_congr rfl (Nat.max_zero _).symm, Nat.zero_le _⟩
  | @cons parameter argument parameters arguments haccept _ ih =>
    obtain ⟨f, formals, hf, hformalsRest, rfl⟩ := List.forall₂_cons_left_iff.mp hformals
    rw [List.map_cons, List.length_cons, wordsFrom, List.map_cons, List.cons.injEq] at hoffsets
    have hnotesFirst : tables.Notes scope types argument.typedNodes := fun x hx =>
      hnotes x (List.mem_flatMap.mpr ⟨argument, List.mem_cons_self, hx⟩)
    have hnotesRest : tables.Notes scope types (arguments.flatMap Expr.typedNodes) := fun x hx => by
      obtain ⟨a, ha, hxa⟩ := List.mem_flatMap.mp hx
      exact hnotes x (List.mem_flatMap.mpr ⟨a, List.mem_cons_of_mem _ ha, hxa⟩)
    have hlabels : argumentsLabels (argument :: arguments) =
        argument.labels + argumentsLabels arguments := rfl
    have hneed : argumentsNeed (argument :: arguments) =
        max argument.need (argumentsNeed arguments) := rfl
    rw [hlabels, hneed, emitArguments_cons, runs_bind]
    refine (haccept.emit_runs hshows hf.1 hnotesFirst).mono (fun r c₁ h₁ => ?_)
      fun e he => ⟨he.1, by omega⟩
    obtain ⟨rfl, rfl, hfits₁⟩ := h₁
    rw [runs_bind]
    refine (runs_require hoffsets.1).mono (fun _ c₂ h₂ => ?_) fun _ h => h
    obtain ⟨rfl, rfl⟩ := h₂
    rw [runs_bind]
    refine (runs_pop (by decide)).mono (fun _ c₃ h₃ => ?_) fun _ h => h
    subst h₃
    rw [runs_bind]
    refine (ih hformalsRest hoffsets.2 hnotesRest).mono (fun code c₄ h₄ => ?_)
      fun e he => ⟨he.1, by omega⟩
    obtain ⟨rfl, rfl, hfits₂⟩ := h₄
    rw [runs_pure]
    exact ⟨rfl, Cursor.at_congr (by omega) (by omega), by omega⟩

/-- The code of a call is what the closed form says, if the registers suffice. -/
lemma emitCall_runs (hshows : tables.Shows scope places signature) {callee : String}
    {arguments : List Expr} {entry : ProcedureEntry}
    (hcallee : tables.lookup scope callee = some (.procedure entry))
    (haccepts : List.Forall₂ (Slot.Accepts tables scope) entry.parameters arguments)
    (hnotes : tables.Notes scope types (arguments.flatMap Expr.typedNodes)) {l high : Nat} :
    Runs (emitCall tables types scope callee arguments) (.at 0 l high)
      (fun code c =>
        code = argumentsCode places ((signature callee).getD []) arguments 0 l ++ [.call callee] ∧
        c = .at 0 (l + argumentsLabels arguments) (max high (argumentsNeed arguments)) ∧
        argumentsNeed arguments ≤ bankSize)
      (fun e => e = .registerOverflow ∧ bankSize < argumentsNeed arguments) := by
  obtain ⟨hentry, hoffsets, formals, hsignature, hformals⟩ := hshows.procedure callee entry hcallee
  unfold emitCall
  rw [runs_bind]
  refine (runs_require hentry).mono (fun _ c₁ h₁ => ?_) fun _ h => h
  obtain ⟨rfl, rfl⟩ := h₁
  rw [runs_bind, hsignature]
  refine (emitArguments_runs hshows haccepts hformals hoffsets hnotes).mono (fun code c₂ h₂ => ?_)
    fun _ h => h
  obtain ⟨rfl, rfl, hfits⟩ := h₂
  exact ⟨rfl, rfl, hfits⟩

/-- Notes of a part of the nodes. -/
lemma Tables.Notes.sub {nodes nodes' : List TypedNode} (h : tables.Notes scope types nodes)
    (hsub : nodes' ⊆ nodes) : tables.Notes scope types nodes' :=
  fun x hx => h x (hsub hx)

mutual

/-- The code of a statement is what the closed form says, if the registers suffice. -/
lemma Stmt.emit_runs (hshows : tables.Shows scope places signature) {s : Stmt}
    (hs : s.WellTyped tables scope) (hnotes : tables.Notes scope types s.typedNodes)
    {l high : Nat} :
    Runs (s.emit tables types scope) (.at 0 l high)
      (fun code c => code = s.code places signature l ∧
        c = .at 0 (l + s.labels) (max high s.need) ∧ s.need ≤ bankSize)
      (fun e => firstOverflow? s.demands = some e) := by
  match s, hs with
  | .empty _, .empty => exact ⟨rfl, Cursor.at_congr rfl (Nat.max_zero _).symm, Nat.zero_le _⟩
  | .block _ body, .block hbody => exact emitStmts_runs hshows hbody hnotes
  | .assign mark target value, .assign htarget hvalue =>
    exact runs_demand (emitAssignment_runs hshows htarget hvalue
      (hnotes.sub (List.subset_append_left _ _)) (hnotes.sub (List.subset_append_right _ _)))
  | .ifThen mark test thenPart, .ifThen htest hthen =>
    have hnotesTest := hnotes.sub (List.subset_append_left _ _)
    have hnotesThen := hnotes.sub (List.subset_append_right _ _)
    rw [Stmt.emit, Stmt.code, Stmt.labels, Stmt.need, Stmt.demands, runs_bind]
    refine runs_newLabel.mono (fun _ c₁ h₁ => ?_) fun _ h => h
    obtain ⟨rfl, rfl⟩ := h₁
    rw [runs_bind]
    refine (runs_demand (Expr.emitCondition_runs hshows htest hnotesTest)).mono
      (fun _ c₂ h₂ => ?_) fun _ h => h
    obtain ⟨rfl, rfl, hfits₁⟩ := h₂
    rw [runs_bind, firstOverflow?_cons_of_le hfits₁]
    refine (Stmt.emit_runs hshows hthen hnotesThen).mono (fun _ c₃ h₃ => ?_) fun _ h => h
    obtain ⟨rfl, rfl, hfits₂⟩ := h₃
    rw [runs_pure]
    exact ⟨rfl, Cursor.at_congr (by omega) (by omega), by omega⟩
  | .ifThenElse mark test thenPart elsePart, .ifThenElse htest hthen helse =>
    have hnotesTest := hnotes.sub (List.subset_append_left _ _)
    have hnotesParts := hnotes.sub (List.subset_append_right _ _)
    have hnotesThen := hnotesParts.sub (List.subset_append_left _ _)
    have hnotesElse := hnotesParts.sub (List.subset_append_right _ _)
    rw [Stmt.emit, Stmt.code, Stmt.labels, Stmt.need, Stmt.demands, runs_bind]
    refine runs_newLabel.mono (fun _ c₁ h₁ => ?_) fun _ h => h
    obtain ⟨rfl, rfl⟩ := h₁
    rw [runs_bind]
    refine runs_newLabel.mono (fun _ c₂ h₂ => ?_) fun _ h => h
    obtain ⟨rfl, rfl⟩ := h₂
    rw [runs_bind]
    refine (runs_demand (Expr.emitCondition_runs hshows htest hnotesTest)).mono
      (fun _ c₃ h₃ => ?_) fun _ h => h
    obtain ⟨rfl, rfl, hfits₁⟩ := h₃
    rw [runs_bind, firstOverflow?_cons_of_le hfits₁, firstOverflow?_append]
    refine (Stmt.emit_runs hshows hthen hnotesThen).mono (fun _ c₄ h₄ => ?_)
      fun e he => by rw [he]; rfl
    obtain ⟨rfl, rfl, hfits₂⟩ := h₄
    rw [runs_bind, firstOverflow?_eq_none (thenPart.need_eq ▸ hfits₂), Option.none_or]
    refine (Stmt.emit_runs hshows helse hnotesElse).mono (fun _ c₅ h₅ => ?_) fun _ h => h
    obtain ⟨rfl, rfl, hfits₃⟩ := h₅
    rw [runs_pure]
    exact ⟨rfl, Cursor.at_congr (by omega) (by omega), by omega⟩
  | .loop mark test body, .loop htest hbody =>
    have hnotesTest := hnotes.sub (List.subset_append_left _ _)
    have hnotesBody := hnotes.sub (List.subset_append_right _ _)
    rw [Stmt.emit, Stmt.code, Stmt.labels, Stmt.need, Stmt.demands, runs_bind]
    refine runs_newLabel.mono (fun _ c₁ h₁ => ?_) fun _ h => h
    obtain ⟨rfl, rfl⟩ := h₁
    rw [runs_bind]
    refine runs_newLabel.mono (fun _ c₂ h₂ => ?_) fun _ h => h
    obtain ⟨rfl, rfl⟩ := h₂
    rw [runs_bind]
    refine (runs_demand (Expr.emitCondition_runs hshows htest hnotesTest)).mono
      (fun _ c₃ h₃ => ?_) fun _ h => h
    obtain ⟨rfl, rfl, hfits₁⟩ := h₃
    rw [runs_bind, firstOverflow?_cons_of_le hfits₁]
    refine (Stmt.emit_runs hshows hbody hnotesBody).mono (fun _ c₄ h₄ => ?_) fun _ h => h
    obtain ⟨rfl, rfl, hfits₂⟩ := h₄
    rw [runs_pure]
    exact ⟨rfl, Cursor.at_congr (by omega) (by omega), by omega⟩
  | .call mark callee arguments, .call hcallee harguments =>
    exact runs_demand (emitCall_runs hshows hcallee harguments hnotes)

/-- The code of a list of statements is what the closed form says, if the registers suffice. -/
lemma emitStmts_runs (hshows : tables.Shows scope places signature) {body : List Stmt}
    (hbody : ∀ s ∈ body, s.WellTyped tables scope)
    (hnotes : tables.Notes scope types (typedNodesOf body)) {l high : Nat} :
    Runs (emitStmts tables types scope body) (.at 0 l high)
      (fun code c => code = codeOf places signature body l ∧
        c = .at 0 (l + labelsOf body) (max high (needOf body)) ∧ needOf body ≤ bankSize)
      (fun e => firstOverflow? (demandsOf body) = some e) := by
  match body with
  | [] => exact ⟨rfl, Cursor.at_congr rfl (Nat.max_zero _).symm, Nat.zero_le _⟩
  | s :: rest =>
    obtain ⟨hs, hrest⟩ := List.forall_mem_cons.mp hbody
    have hnotesFirst := hnotes.sub (List.subset_append_left _ _)
    have hnotesRest := hnotes.sub (List.subset_append_right _ _)
    rw [emitStmts, codeOf, labelsOf, needOf, demandsOf, firstOverflow?_append, runs_bind]
    refine (Stmt.emit_runs hshows hs hnotesFirst).mono (fun _ c₁ h₁ => ?_)
      fun e he => by rw [he]; rfl
    obtain ⟨rfl, rfl, hfits₁⟩ := h₁
    rw [runs_bind, firstOverflow?_eq_none (s.need_eq ▸ hfits₁), Option.none_or]
    refine (emitStmts_runs hshows hrest hnotesRest).mono (fun _ c₂ h₂ => ?_) fun _ h => h
    obtain ⟨rfl, rfl, hfits₂⟩ := h₂
    rw [runs_pure]
    exact ⟨rfl, Cursor.at_congr (by omega) (by omega), by omega⟩

end

end

end TreeCompiler
