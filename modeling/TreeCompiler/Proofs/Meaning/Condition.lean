import TreeCompiler.Proofs.Meaning.Fragment

/-!
# The code of a condition on its own

A condition can be evaluated in two ways: its value can be put into a register, as that of any other
expression, or its code can go to a label if the condition does not hold.  The two ways agree
(`Program.conditions_agree`): the code of the condition goes to the label exactly if that of the
expression leaves a zero, goes on at its end exactly if that of the expression leaves another word,
and meets an index that is out of range or divides by zero exactly if that of the expression does.
-/

namespace TreeCompiler

/-- The next instruction of a machine takes it to a symbol. -/
def Machine.GoesTo (m : Machine) (name : String) : Prop :=
  m.status = .running ∧ ∃ rest, m.rest = .jump name :: rest ∨
    ∃ op left right, m.rest = .branch op left right name :: rest ∧
      op.holds (m.get left) (m.get right) = true

/-- A machine decides a condition by the code that it has: it faults like the evaluation, or it goes
to the label if the value is 0 and to the end of the code if it is another word. -/
structure Host.Decides {code : Code} (host : Host code) (m : Machine) (n : Nat) (falseLabel : String)
    (value : Except NoValue Bits) : Prop extends host.FaultsLike m n value where
  jumps : (∃ k, (host.after m k).GoesTo falseLabel) ↔ value = .ok 0
  passes : (∃ k, (host.after m k).AtEnd) ↔ ∃ w, value = .ok w ∧ w ≠ 0

section
variable {code : Code} {host : Host code} {m m' : Machine} {n : Nat} {falseLabel : String}

/-- A machine that goes to a symbol that the code does not know stops. -/
lemma Machine.GoesTo.stops (h : m.GoesTo falseLabel) (hlabel : .label falseLabel ∉ code)
    (hname : falseLabel ≠ indexErrorLabel) : host.Stops m := by
  have hjump : host.jump m falseLabel = m.halt .stuck := by
    unfold Host.jump
    rw [findLabel_eq_none hlabel, if_neg hname]
  obtain ⟨hrun, rest, hrest⟩ := h
  refine ⟨by rw [hrun]; decide, .inr ?_⟩
  rcases hrest with hrest | ⟨op, left, right, hrest, hholds⟩
  · rw [Host.step_jump hrest hrun, hjump]
  · rw [Host.step_branch_of_holds hrest hholds hrun, hjump]

/-- A machine does not go to a symbol at the end of its code. -/
lemma Machine.AtEnd.not_goesTo (h : m.AtEnd) : ¬m.GoesTo falseLabel := by
  rintro ⟨-, rest, hrest | ⟨op, left, right, hrest, -⟩⟩ <;>
  · rw [h.rest] at hrest
    cases hrest

/-- Where the value of a condition takes a machine. -/
def Machine.Follows (m : Machine) (falseLabel : String) (w : Bits) : Prop :=
  (w = 0 ∧ m.GoesTo falseLabel) ∨ (w ≠ 0 ∧ m.AtEnd)

/-- An evaluation that the machine follows is decided. -/
lemma Host.Evaluates.decides {value : Except NoValue Bits}
    (h : host.Evaluates m value fun w m' => m'.Follows falseLabel w)
    (hlabel : .label falseLabel ∉ code) (hname : falseLabel ≠ indexErrorLabel)
    (hcode : Code.WritesFrom n code) (hrest : m.rest <:+ code) :
    host.Decides m n falseLabel value := by
  have hgood : ∀ (w : Bits) (m' : Machine), m'.Follows falseLabel w →
      host.Stops m' ∧ m'.status = .running := by
    rintro w m' (⟨-, hgoes⟩ | ⟨-, hend⟩)
    · exact ⟨hgoes.stops hlabel hname, hgoes.1⟩
    · exact ⟨.of_atEnd hend, hend.status⟩
  have hfollows : ∀ k, host.Stops (host.after m k) → (host.after m k).status = .running →
      ∃ w, value = .ok w ∧ (host.after m k).Follows falseLabel w :=
    fun k => h.exists_of_stops fun w m' hm' => (hgood w m' hm').1
  refine ⟨h.faultsLike hgood hcode hrest, ⟨?_, ?_⟩, ⟨?_, ?_⟩⟩
  · rintro ⟨k, hgoes⟩
    obtain ⟨w, rfl, ⟨rfl, -⟩ | ⟨-, hend⟩⟩ := hfollows k (hgoes.stops hlabel hname) hgoes.1
    · rfl
    · exact absurd hgoes hend.not_goesTo
  · intro hzero
    obtain ⟨k, ⟨-, hgoes⟩ | ⟨hne, -⟩⟩ := h.exists_of_ok hzero
    · exact ⟨k, hgoes⟩
    · exact absurd rfl hne
  · rintro ⟨k, hend⟩
    obtain ⟨w, rfl, ⟨-, hgoes⟩ | ⟨hne, -⟩⟩ := hfollows k (.of_atEnd hend) hend.status
    · exact absurd hgoes hend.not_goesTo
    · exact ⟨w, rfl, hne⟩
  · rintro ⟨w, hvalue, hne⟩
    obtain ⟨k, ⟨rfl, -⟩ | ⟨-, hend⟩⟩ := h.exists_of_ok hvalue
    · exact absurd rfl hne
    · exact ⟨k, hend⟩

end

/-- The code of a condition on its own decides the condition. -/
lemma Expr.decides {v : View} {n l : Nat} {m : Machine} {test : Expr} {s : ValueShape}
    {falseLabel : String} {code : Code}
    (hcode : code = test.testCode v.places n l ++ [test.testBranch falseLabel n])
    (htest : test.shape? v.places = some s) (hs : s.isScalar = true)
    (hn : n + test.need ≤ bankSize) (hlabel : .label falseLabel ∉ code)
    (hname : falseLabel ≠ indexErrorLabel) (host : Host code) (hshows : v.Shows m)
    (hrun : m.status = .running) (hrest : m.rest = code) :
    host.Decides m n falseLabel (test.evaluate v.environment v.store) := by
  subst hcode
  have hlinked := (test.links_testCode v.places falseLabel n l).linked
  have hsuffix : m.rest <:+ test.testCode v.places n l ++ [test.testBranch falseLabel n] :=
    hrest ▸ List.suffix_rfl
  refine Host.Evaluates.decides ?_ hlabel hname (test.writesFrom_testCode hn) hsuffix
  refine (Expr.testCode_evaluates host hlinked htest hs hshows hrun hn hrest hsuffix).andThen
    fun w m₁ h₁ => ?_
  obtain ⟨hkeeps, op, left, right, hrest₁, hholds⟩ := h₁
  by_cases hw : w = 0
  · rw [decide_eq_true hw] at hholds
    exact ⟨m₁, .refl, rfl, .inl ⟨hw, hkeeps.status, [], .inr ⟨op, left, right, hrest₁, hholds⟩⟩⟩
  · rw [decide_eq_false hw] at hholds
    have hpass : host.step m₁ = m₁.goTo [] :=
      Host.step_branch_of_not_holds hrest₁ hholds hkeeps.status
    exact ⟨_, (Host.Advances.one hpass hkeeps.status).reaches, rfl,
      .inr ⟨hw, hkeeps.status, rfl⟩⟩

/-! ### Conditions of a program -/

/-- A machine finds out the same by two pieces of code: one goes to a label if the other leaves 0 in a
register of the bank, and to its end if the other leaves another word, and the two fault alike.  The
one does end, and leaves everything else alone. -/
structure Host.Matches {code code' : Code} (host : Host code) (host' : Host code') (m : Machine)
    (n : Nat) (falseLabel : String) : Prop where
  jumps : (∃ k, (host.after (m.goTo code) k).GoesTo falseLabel) ↔
    ∃ k, (host'.after (m.goTo code') k).AtEnd ∧ (host'.after (m.goTo code') k).get (bank n) = 0
  passes : (∃ k, (host.after (m.goTo code) k).AtEnd) ↔
    ∃ k, (host'.after (m.goTo code') k).AtEnd ∧ (host'.after (m.goTo code') k).get (bank n) ≠ 0
  indexError : (∃ k, (host.after (m.goTo code) k).status = .indexError) ↔
    ∃ k, (host'.after (m.goTo code') k).status = .indexError
  divisionByZero : (∃ k, (host.after (m.goTo code) k).status = .divisionByZero) ↔
    ∃ k, (host'.after (m.goTo code') k).status = .divisionByZero
  ends : ∃ k, (host.after (m.goTo code) k).GoesTo falseLabel ∨ (host.after (m.goTo code) k).AtEnd ∨
    (host.after (m.goTo code) k).status = .indexError ∨
    (host.after (m.goTo code) k).status = .divisionByZero
  preserves : ∀ k, m.Preserves (host.after (m.goTo code) k) n

/-- Code that decides a condition matches code that carries out its evaluation. -/
lemma Host.Decides.matches {code code' : Code} {host : Host code} {host' : Host code'} {m : Machine}
    {n : Nat} {falseLabel : String} {value : Except NoValue Bits}
    (h : host.Decides (m.goTo code) n falseLabel value)
    (h' : host'.CarriesOut (m.goTo code') n value) : host.Matches host' m n falseLabel where
  jumps := h.jumps.trans (h'.result 0).symm
  passes := by
    rw [h.passes]
    constructor
    · rintro ⟨w, hvalue, hne⟩
      obtain ⟨k, hend, rfl⟩ := (h'.result w).mpr hvalue
      exact ⟨k, hend, hne⟩
    · rintro ⟨k, hend, hne⟩
      exact ⟨_, (h'.result _).mp ⟨k, hend, rfl⟩, hne⟩
  indexError := h.indexError.trans h'.indexError.symm
  divisionByZero := h.divisionByZero.trans h'.divisionByZero.symm
  ends := by
    match value, h with
    | .ok w, h =>
      by_cases hw : w = 0
      · obtain ⟨k, hk⟩ := h.jumps.mpr (congrArg _ hw)
        exact ⟨k, .inl hk⟩
      · obtain ⟨k, hk⟩ := h.passes.mpr ⟨w, rfl, hw⟩
        exact ⟨k, .inr (.inl hk)⟩
    | .error .indexOutOfRange, h =>
      obtain ⟨k, hk⟩ := h.indexError.mpr rfl
      exact ⟨k, .inr (.inr (.inl hk))⟩
    | .error .divisionByZero, h =>
      obtain ⟨k, hk⟩ := h.divisionByZero.mpr rfl
      exact ⟨k, .inr (.inr (.inr hk))⟩
    | .error .meaningless, h => exact absurd rfl h.meaningful
  preserves k := ⟨(h.preserves k).memory, (h.preserves k).events, (h.preserves k).registers⟩

/-- A comparison is false exactly if the integers are not so related. -/
lemma Expr.evaluate_comparison_eq_zero {environment : Environment} {store : Store} {mark : Mark}
    {op : BinaryOp} {left right : Expr} {a b : Bits} (hop : op.isComparison = true)
    (hleft : left.evaluate environment store = .ok a)
    (hright : right.evaluate environment store = .ok b) :
    (Expr.binary mark op left right).evaluate environment store = .ok 0 ↔
      op.relates a.toInt b.toInt = false := by
  rw [Expr.evaluate, hleft, hright]
  change op.apply a b = .ok 0 ↔ _
  rw [op.apply_eq_compute]
  cases op with
  | add | sub | mul | div => cases hop
  | eq | ne | lt | le | gt | ge =>
    rw [BinaryOp.compute]
    split <;> simp_all

/-- The code of a condition goes to its label exactly if that of the expression leaves a zero.  For a
comparison that is if it is false of signed integers.  The label is one from outside: not one of those
that are made from then on, nor that of the index error. -/
theorem Program.conditions_agree (definitions : List Definition)
    (declared allocated : Tables) (types : Annotations)
    (hdeclared : (ofDefinitions definitions).declare.runOn .predefined = (.ok (), declared))
    (hchecked : (ofDefinitions definitions).check declared = .ok types)
    (hallocated : (ofDefinitions definitions).allocate.runOn declared = (.ok (), allocated))
    (q : Procedure) (hq : q ∈ (ofDefinitions definitions).procedures) (entry : ProcedureEntry)
    (hentry : allocated.procedure? q.name = some entry) (n l high : Nat) (hn : n ≤ bankSize)
    (falseLabel : String) (hlabel : ∀ k, l ≤ k → falseLabel ≠ labelName k)
    (hname : falseLabel ≠ indexErrorLabel) :
    (∀ e test c, .expr e ∈ typedNodesOf q.body → types.find? e.mark.id = some .bool →
      (e.emitCondition allocated types entry.scope falseLabel).run (.at n l high) = .ok (test, c) →
      (∃ l' high', c = .at n l' high') ∧
      ∃ code c', (e.emit allocated types entry.scope).run (.at n l high) = .ok ((bank n, code), c') ∧
        ∀ (host : Host test) (host' : Host code) m environment store origin frame,
          m.status = .running →
          m.AgreesWith allocated entry.scope environment store origin frame →
          host.Matches host' m n falseLabel ∧
          ∀ mark op left right a b, e = .binary mark op left right → op.isComparison = true →
            Expr.evaluate environment store left = .ok a →
            Expr.evaluate environment store right = .ok b →
            ((∃ k, (host.after (m.goTo test) k).GoesTo falseLabel) ↔
              op.relates a.toInt b.toInt = false)) ∧
    ∀ op : BinaryOp, op.isComparison = true → ∀ a b : Bits,
      op.inverseBranch.holds a b = !op.relates a.toInt b.toInt := by
  have hready := ready hdeclared hchecked hallocated
  have hbound := Tables.procedure?_eq_some.mp hentry
  have hshows := hready.laidOut.shows hq hbound
  refine ⟨?_, fun op hop a b => ?_⟩
  swap
  · rw [BinaryOp.holds_inverseBranch hop, op.holds_eq_relates]
  intro e test c hmem hbool hemit
  obtain ⟨t, ht, hfound, hnotes⟩ := hready.node hq hentry hmem
  have hfound : types.find? e.mark.id = some t := hfound
  obtain rfl : t = .bool := Option.some.inj (hfound.symm.trans hbool)
  obtain ⟨heq, rfl, hfits⟩ := (Expr.emitCondition_runs_at hshows ht hnotes hn).of_ok hemit
  have hruns : Runs (e.emit allocated types entry.scope) (.at n l high) _ _ :=
    Expr.emit_runs hshows ht hnotes hn
  obtain ⟨r, c', hcode, rfl, -, -⟩ := hruns.exists_ok fun _ h => absurd hfits (Nat.not_le.mpr h.2)
  refine ⟨⟨_, _, rfl⟩, _, c', hcode, ?_⟩
  intro host host' m environment store origin frame hrun hagrees
  obtain ⟨s, hs, hshape⟩ := Expr.HasType.shape?_eq hshows ht
  have hscalar := TypeTable.isScalar_of_primitive (.inr rfl) hshape
  have hview := fun rest => (hagrees.goTo rest).shows hready.laidOut hq hbound
  have hlabels : .label falseLabel ∉ test := by
    intro hmem
    rw [heq] at hmem
    obtain ⟨k, hk, rfl⟩ := (e.links_testCode _ falseLabel n l).exists_of_label hmem
    exact hlabel k hk rfl
  have hdecides := Expr.decides heq hs hscalar hfits hlabels hname host (hview test) hrun rfl
  have hcarries := Expr.carriesOut hs hscalar hfits host'
    (hview (e.code _ n l)) hrun rfl
  refine ⟨hdecides.matches hcarries, ?_⟩
  rintro mark op left right a b rfl hop hleft hright
  rw [hdecides.jumps]
  exact Expr.evaluate_comparison_eq_zero hop hleft hright

/-- The code of the condition, with the branch to its label. -/
def gridTestCode : Code := gridTest.testCode gridPlaces 0 1 ++ [gridTest.testBranch (labelName 0) 0]

/-- What surrounds a machine with the code of the condition. -/
def gridTestHost : Host gridTestCode := .plain gridTestCode (by decide)

/-- The element is smaller, so that the machine does not go to the label. -/
theorem Program.conditions_agree_grid :
    gridTestHost.Matches gridHost (gridMachine []) 0 (labelName 0) ∧
    ¬∃ k, (gridTestHost.after (gridMachine gridTestCode) k).GoesTo (labelName 0) := by
  obtain ⟨hdeclared, hchecked, hallocated⟩ := grid_passes
  have hentry : gridAllocated.procedure? gridMain.name = some gridEntry := by decide +kernel
  have hlabel : ∀ k, 1 ≤ k → labelName 0 ≠ labelName k := fun k hk heq =>
    absurd (labelName_injective heq) (by omega)
  have hemit : (gridTest.emitCondition gridAllocated gridTypes gridEntry.scope
      (labelName 0)).run (.at 0 1 0) = .ok (gridTestCode, .at 0 1 3) := by
    decide +kernel
  obtain ⟨hconditions, -⟩ := conditions_agree grid gridDeclared gridAllocated gridTypes
    hdeclared hchecked hallocated gridMain (List.get_mem _ _) gridEntry hentry 0 1 0 (by decide)
    (labelName 0) hlabel (by decide)
  obtain ⟨-, code, c, hcode, hagree⟩ :=
    hconditions gridTest _ _ gridTest_mem (by decide +kernel) hemit
  rw [gridTest_emit] at hcode
  cases hcode
  obtain ⟨hmatches, hcomparison⟩ :=
    hagree gridTestHost gridHost _ _ _ _ _ rfl (gridMachine_agreesWith [])
  have hjumps := hcomparison _ _ _ _ 5 7 rfl rfl rfl rfl
  refine ⟨hmatches, fun hgoes => ?_⟩
  have hrelates := hjumps.mp hgoes
  cases hrelates

end TreeCompiler
