import TreeCompiler.Proofs.List
import TreeCompiler.Proofs.Threading
import TreeCompiler.Proofs.Typing.System

/-!
# The checker decides the type system

A check succeeds exactly if the typing rules apply, and what it notes are the types of the nodes that
it has gone through, once for each of them.  Both directions follow the recursion of the checker:
`check_sound` takes a successful check apart, `check_complete` puts one together from a derivation.
-/

namespace TreeCompiler

/-! ### What a check notes -/

/-- `b` holds the notes of `a` and one more for each of the nodes, of a type that `R` allows. -/
def Annotations.Extends (R : TypedNode → TypeId → Prop) (nodes : List TypedNode)
    (a b : Annotations) : Prop :=
  ∃ l : List (TypedNode × TypeId), (l.map Prod.fst).Perm nodes ∧ (∀ x ∈ l, R x.1 x.2) ∧
    b.entries = l.map (fun x => (x.1.id, x.2)) ++ a.entries

namespace Annotations.Extends

variable {R R' : TypedNode → TypeId → Prop} {nodes nodes' : List TypedNode} {a b c : Annotations}

/-- Nothing is noted for no nodes. -/
lemma refl : Annotations.Extends R [] a a :=
  ⟨[], List.Perm.refl _, fun _ h => absurd h List.not_mem_nil, rfl⟩

/-- The notes of two checks in a row. -/
lemma trans (h : Annotations.Extends R nodes a b) (h' : Annotations.Extends R nodes' b c) :
    Annotations.Extends R (nodes ++ nodes') a c := by
  obtain ⟨l, hperm, hl, hb⟩ := h
  obtain ⟨l', hperm', hl', hc⟩ := h'
  refine ⟨l' ++ l, ?_, ?_, ?_⟩
  · rw [List.map_append]
    exact (hperm'.append hperm).trans List.perm_append_comm
  · intro x hx
    rcases List.mem_append.mp hx with hx | hx
    · exact hl' x hx
    · exact hl x hx
  · rw [hc, hb, List.map_append, List.append_assoc]

/-- The note of a node after those of the nodes in it. -/
lemma insert (h : Annotations.Extends R nodes a b) {x : TypedNode} {t : TypeId} (hx : R x t) :
    Annotations.Extends R (x :: nodes) a (b.insert x.id t) := by
  obtain ⟨l, hperm, hl, hb⟩ := h
  refine ⟨(x, t) :: l, hperm.cons x, ?_, ?_⟩
  · intro y hy
    rcases List.mem_cons.mp hy with rfl | hy
    · exact hx
    · exact hl y hy
  · simp only [Annotations.insert, hb, List.map_cons, List.cons_append]

/-- What the notes allow can be weakened. -/
lemma mono (h : Annotations.Extends R nodes a b)
    (himp : ∀ x ∈ nodes, ∀ t, R x t → R' x t) : Annotations.Extends R' nodes a b := by
  obtain ⟨l, hperm, hl, hb⟩ := h
  refine ⟨l, hperm, fun x hx => himp x.1 ?_ x.2 (hl x hx), hb⟩
  exact hperm.mem_iff.mp (List.mem_map_of_mem hx)

/-- Every node that is noted has a type. -/
lemma exists_type (h : Annotations.Extends R nodes a b) {x : TypedNode} (hx : x ∈ nodes) :
    ∃ t, R x t := by
  obtain ⟨l, hperm, hl, -⟩ := h
  obtain ⟨⟨y, t⟩, hy, rfl⟩ := List.mem_map.mp (hperm.mem_iff.mpr hx)
  exact ⟨t, hl _ hy⟩

/-- The notes on top of none. -/
lemma entries_eq (h : Annotations.Extends R nodes {} b) :
    ∃ l : List (TypedNode × TypeId), (l.map Prod.fst).Perm nodes ∧ (∀ x ∈ l, R x.1 x.2) ∧
      b.entries = l.map fun x => (x.1.id, x.2) := by
  obtain ⟨l, hperm, hl, hb⟩ := h
  exact ⟨l, hperm, hl, by rw [hb, List.append_nil]⟩

end Annotations.Extends

/-- If all the nodes have numbers of their own, the notes are found under them. -/
lemma Annotations.Extends.find?_eq_some_iff {R : TypedNode → TypeId → Prop}
    {nodes : List TypedNode} {a : Annotations} (h : Annotations.Extends R nodes {} a)
    (hids : (nodes.map TypedNode.id).Nodup) (hunique : ∀ x s t, R x s → R x t → s = t) {n : Nat}
    {t : TypeId} : a.find? n = some t ↔ ∃ x ∈ nodes, x.id = n ∧ R x t := by
  obtain ⟨l, hperm, hl, ha⟩ := h.entries_eq
  have hkeys : (a.entries.map Prod.fst).Nodup := by
    have hmap : a.entries.map Prod.fst = (l.map Prod.fst).map TypedNode.id := by
      rw [ha, List.map_map, List.map_map]
      rfl
    rw [hmap]
    exact (hperm.map TypedNode.id).nodup_iff.mpr hids
  rw [Annotations.find?, lookup_eq_some_iff hkeys, ha, List.mem_map]
  constructor
  · rintro ⟨⟨x, s⟩, hx, heq⟩
    cases heq
    exact ⟨x, hperm.mem_iff.mp (List.mem_map_of_mem hx), rfl, hl _ hx⟩
  · rintro ⟨x, hx, rfl, ht⟩
    obtain ⟨⟨y, s⟩, hy, heq⟩ := List.mem_map.mp (hperm.mem_iff.mpr hx)
    cases heq
    refine ⟨(y, s), hy, ?_⟩
    rw [hunique y s t (hl _ hy) ht]

/-! ### The building blocks of checks -/

@[simp] lemma run_note_eq_ok {mark : Mark} {type t : TypeId} {a b : Annotations} :
    (Check.note mark type).run a = .ok (t, b) ↔ type = t ∧ a.insert mark.id type = b := by
  simp only [Check.note, run_bind_eq_ok, run_modify_eq_ok, run_pure_eq_ok]
  constructor
  · rintro ⟨_, _, rfl, rfl, rfl⟩
    exact ⟨rfl, rfl⟩
  · rintro ⟨rfl, rfl⟩
    exact ⟨⟨⟩, _, rfl, rfl, rfl⟩

@[simp] lemma run_failAt_eq_ok {α : Type} {line : UInt32} {cause : SemanticError}
    {a b : Annotations} {x : α} : (Check.failAt line cause).run a = .ok (x, b) ↔ False :=
  run_throw_eq_ok

section
variable {tables : Tables} {scope : ScopeId}

/-! ### Soundness -/

mutual

/-- A variable that passes the check has the type that is found, and its nodes are noted. -/
lemma Variable.check_sound {v : Variable} {t : TypeId} {a b : Annotations}
    (h : (v.check tables scope).run a = .ok (t, b)) :
    v.HasType tables scope t ∧
      Annotations.Extends (TypedNode.HasType tables scope) v.typedNodes a b := by
  match v with
  | .named mark name =>
    rw [Variable.check] at h
    split at h
    · rw [run_failAt_eq_ok] at h
      exact h.elim
    · rename_i slot hslot
      obtain ⟨rfl, rfl⟩ := run_note_eq_ok.mp h
      have htype : (Variable.named mark name).HasType tables scope slot.type := .named hslot
      exact ⟨htype, Annotations.Extends.refl.insert (x := .place (.named mark name)) htype⟩
    · rw [run_failAt_eq_ok] at h
      exact h.elim
  | .element mark array index =>
    rw [Variable.check] at h
    obtain ⟨arrayType, a₁, harray, h₁⟩ := run_bind_eq_ok.mp h
    obtain ⟨indexType, a₂, hindex, h₂⟩ := run_bind_eq_ok.mp h₁
    obtain ⟨harrayType, harrayNotes⟩ := Variable.check_sound harray
    obtain ⟨hindexType, hindexNotes⟩ := Expr.check_sound hindex
    split at h₂
    · rw [run_failAt_eq_ok] at h₂
      exact h₂.elim
    · rename_i info hinfo
      split at h₂
      · rw [run_failAt_eq_ok] at h₂
        exact h₂.elim
      · rename_i hint
        rw [not_not] at hint
        subst hint
        obtain ⟨rfl, rfl⟩ := run_note_eq_ok.mp h₂
        have htype : (Variable.element mark array index).HasType tables scope info.base :=
          .element harrayType hinfo hindexType
        exact ⟨htype, (harrayNotes.trans hindexNotes).insert
          (x := .place (.element mark array index)) htype⟩

/-- An expression that passes the check has the type that is found, and its nodes are noted. -/
lemma Expr.check_sound {e : Expr} {t : TypeId} {a b : Annotations}
    (h : (e.check tables scope).run a = .ok (t, b)) :
    e.HasType tables scope t ∧
      Annotations.Extends (TypedNode.HasType tables scope) e.typedNodes a b := by
  match e with
  | .int mark value =>
    rw [Expr.check] at h
    obtain ⟨rfl, rfl⟩ := run_note_eq_ok.mp h
    exact ⟨.int, Annotations.Extends.refl.insert (x := .expr (.int mark value)) Expr.HasType.int⟩
  | .bool mark value =>
    rw [Expr.check] at h
    obtain ⟨rfl, rfl⟩ := run_note_eq_ok.mp h
    exact ⟨.bool, Annotations.Extends.refl.insert (x := .expr (.bool mark value)) Expr.HasType.bool⟩
  | .read mark source =>
    rw [Expr.check] at h
    obtain ⟨type, a₁, hsource, h₁⟩ := run_bind_eq_ok.mp h
    obtain ⟨hsourceType, hsourceNotes⟩ := Variable.check_sound hsource
    obtain ⟨rfl, rfl⟩ := run_note_eq_ok.mp h₁
    have htype : (Expr.read mark source).HasType tables scope type := .read hsourceType
    exact ⟨htype, hsourceNotes.insert (x := .expr (.read mark source)) htype⟩
  | .negate mark operand =>
    rw [Expr.check] at h
    obtain ⟨type, a₁, hoperand, h₁⟩ := run_bind_eq_ok.mp h
    obtain ⟨hoperandType, hoperandNotes⟩ := Expr.check_sound hoperand
    split at h₁
    · rw [run_failAt_eq_ok] at h₁
      exact h₁.elim
    · rename_i hint
      rw [not_not] at hint
      subst hint
      obtain ⟨rfl, rfl⟩ := run_note_eq_ok.mp h₁
      have htype : (Expr.negate mark operand).HasType tables scope .int := .negate hoperandType
      exact ⟨htype, hoperandNotes.insert (x := .expr (.negate mark operand)) htype⟩
  | .binary mark op left right =>
    rw [Expr.check] at h
    obtain ⟨leftType, a₁, hleft, h₁⟩ := run_bind_eq_ok.mp h
    obtain ⟨rightType, a₂, hright, h₂⟩ := run_bind_eq_ok.mp h₁
    obtain ⟨hleftType, hleftNotes⟩ := Expr.check_sound hleft
    obtain ⟨hrightType, hrightNotes⟩ := Expr.check_sound hright
    split at h₂
    · rw [run_failAt_eq_ok] at h₂
      exact h₂.elim
    · rename_i hint
      rw [not_or, not_not, not_not] at hint
      obtain ⟨rfl, rfl⟩ := hint
      obtain ⟨rfl, rfl⟩ := run_note_eq_ok.mp h₂
      have htype : (Expr.binary mark op left right).HasType tables scope
          (if op.isComparison then .bool else .int) := by
        cases hop : op.isComparison with
        | true => exact .comparison hop hleftType hrightType
        | false => exact .arithmetic hop hleftType hrightType
      exact ⟨htype, (hleftNotes.trans hrightNotes).insert
        (x := .expr (.binary mark op left right)) htype⟩

end

/-- Arguments that pass the check fit the parameters, and their nodes are noted. -/
lemma checkArguments_sound {line : UInt32} {callee : String} {position : Nat}
    {parameters : List Slot} {arguments : List Expr} {a b : Annotations}
    (hlength : parameters.length = arguments.length)
    (h : (checkArguments tables scope line callee position parameters arguments).run a =
      .ok ((), b)) :
    List.Forall₂ (Slot.Accepts tables scope) parameters arguments ∧
      Annotations.Extends (TypedNode.HasType tables scope) (arguments.flatMap Expr.typedNodes)
        a b := by
  induction parameters generalizing position arguments a with
  | nil =>
    cases arguments with
    | nil =>
      rw [checkArguments] at h
      · obtain ⟨-, rfl⟩ := run_pure_eq_ok.mp h
        exact ⟨.nil, Annotations.Extends.refl⟩
      · simp
    | cons => simp at hlength
  | cons parameter parameters ih =>
    cases arguments with
    | nil => simp at hlength
    | cons argument arguments =>
      rw [checkArguments] at h
      split at h
      · rw [run_failAt_eq_ok] at h
        exact h.elim
      · rename_i hplain
        obtain ⟨type, a₁, hargument, h₁⟩ := run_bind_eq_ok.mp h
        obtain ⟨hargumentType, hargumentNotes⟩ := Expr.check_sound hargument
        split at h₁
        · rw [run_failAt_eq_ok] at h₁
          exact h₁.elim
        · rename_i hsame
          rw [not_not] at hsame
          subst hsame
          obtain ⟨hrest, hrestNotes⟩ := ih (by simpa using hlength) h₁
          refine ⟨.cons ⟨hargumentType, fun href => ?_⟩ hrest, hargumentNotes.trans hrestNotes⟩
          simpa [href, Option.isSome_iff_ne_none] using hplain

mutual

/-- A statement that passes the check obeys the rules, and its nodes are noted. -/
lemma Stmt.check_sound {s : Stmt} {a b : Annotations}
    (h : (s.check tables scope).run a = .ok ((), b)) :
    s.WellTyped tables scope ∧
      Annotations.Extends (TypedNode.HasType tables scope) s.typedNodes a b := by
  match s with
  | .empty mark =>
    rw [Stmt.check] at h
    obtain ⟨-, rfl⟩ := run_pure_eq_ok.mp h
    exact ⟨.empty, Annotations.Extends.refl⟩
  | .block mark body =>
    rw [Stmt.check] at h
    obtain ⟨hbody, hnotes⟩ := checkStmts_sound h
    exact ⟨.block hbody, hnotes⟩
  | .assign mark target value =>
    rw [Stmt.check] at h
    obtain ⟨targetType, a₁, htarget, h₁⟩ := run_bind_eq_ok.mp h
    obtain ⟨valueType, a₂, hvalue, h₂⟩ := run_bind_eq_ok.mp h₁
    obtain ⟨htargetType, htargetNotes⟩ := Variable.check_sound htarget
    obtain ⟨hvalueType, hvalueNotes⟩ := Expr.check_sound hvalue
    split at h₂
    · rw [run_failAt_eq_ok] at h₂
      exact h₂.elim
    · rename_i hsame
      rw [not_not] at hsame
      subst hsame
      split at h₂
      · rw [run_failAt_eq_ok] at h₂
        exact h₂.elim
      · rename_i hint
        rw [not_not] at hint
        subst hint
        obtain ⟨-, rfl⟩ := run_pure_eq_ok.mp h₂
        exact ⟨.assign htargetType hvalueType, htargetNotes.trans hvalueNotes⟩
  | .ifThen mark test thenPart =>
    rw [Stmt.check] at h
    obtain ⟨type, a₁, htest, h₁⟩ := run_bind_eq_ok.mp h
    obtain ⟨htestType, htestNotes⟩ := Expr.check_sound htest
    split at h₁
    · rw [run_failAt_eq_ok] at h₁
      exact h₁.elim
    · rename_i hbool
      rw [not_not] at hbool
      subst hbool
      obtain ⟨hthen, hthenNotes⟩ := Stmt.check_sound h₁
      exact ⟨.ifThen htestType hthen, htestNotes.trans hthenNotes⟩
  | .ifThenElse mark test thenPart elsePart =>
    rw [Stmt.check] at h
    obtain ⟨type, a₁, htest, h₁⟩ := run_bind_eq_ok.mp h
    obtain ⟨htestType, htestNotes⟩ := Expr.check_sound htest
    split at h₁
    · rw [run_failAt_eq_ok] at h₁
      exact h₁.elim
    · rename_i hbool
      rw [not_not] at hbool
      subst hbool
      obtain ⟨_, a₂, hthenRun, helseRun⟩ := run_bind_eq_ok.mp h₁
      obtain ⟨hthen, hthenNotes⟩ := Stmt.check_sound hthenRun
      obtain ⟨helse, helseNotes⟩ := Stmt.check_sound helseRun
      exact ⟨.ifThenElse htestType hthen helse, htestNotes.trans (hthenNotes.trans helseNotes)⟩
  | .loop mark test body =>
    rw [Stmt.check] at h
    obtain ⟨type, a₁, htest, h₁⟩ := run_bind_eq_ok.mp h
    obtain ⟨htestType, htestNotes⟩ := Expr.check_sound htest
    split at h₁
    · rw [run_failAt_eq_ok] at h₁
      exact h₁.elim
    · rename_i hbool
      rw [not_not] at hbool
      subst hbool
      obtain ⟨hbody, hbodyNotes⟩ := Stmt.check_sound h₁
      exact ⟨.loop htestType hbody, htestNotes.trans hbodyNotes⟩
  | .call mark callee arguments =>
    rw [Stmt.check, checkCall] at h
    split at h
    · rw [run_failAt_eq_ok] at h
      exact h.elim
    · rename_i entry hentry
      split at h
      · rw [run_failAt_eq_ok] at h
        exact h.elim
      · rename_i hlength
        rw [not_not] at hlength
        obtain ⟨harguments, hnotes⟩ := checkArguments_sound hlength h
        exact ⟨.call hentry harguments, hnotes⟩
    · rw [run_failAt_eq_ok] at h
      exact h.elim

/-- Statements that pass the check obey the rules, and their nodes are noted. -/
lemma checkStmts_sound {l : List Stmt} {a b : Annotations}
    (h : (checkStmts tables scope l).run a = .ok ((), b)) :
    (∀ s ∈ l, s.WellTyped tables scope) ∧
      Annotations.Extends (TypedNode.HasType tables scope) (typedNodesOf l) a b := by
  match l with
  | [] =>
    rw [checkStmts] at h
    obtain ⟨-, rfl⟩ := run_pure_eq_ok.mp h
    exact ⟨fun s hs => absurd hs List.not_mem_nil, Annotations.Extends.refl⟩
  | s :: rest =>
    rw [checkStmts] at h
    obtain ⟨_, a₁, hs, hrest⟩ := run_bind_eq_ok.mp h
    obtain ⟨hstmt, hnotes⟩ := Stmt.check_sound hs
    obtain ⟨hstmts, hrestNotes⟩ := checkStmts_sound hrest
    exact ⟨List.forall_mem_cons.mpr ⟨hstmt, hstmts⟩, hnotes.trans hrestNotes⟩

end

/-! ### Completeness -/

mutual

/-- A variable that has a type passes the check with that type. -/
lemma Variable.check_complete {v : Variable} {t : TypeId} (h : v.HasType tables scope t)
    (a : Annotations) : ∃ b, (v.check tables scope).run a = .ok (t, b) := by
  match v, h with
  | .named mark name, @Variable.HasType.named _ _ _ _ slot hslot =>
    refine ⟨a.insert mark.id slot.type, ?_⟩
    rw [Variable.check, hslot]
    exact run_note_eq_ok.mpr ⟨rfl, rfl⟩
  | .element mark array index, @Variable.HasType.element _ _ _ _ _ _ info harray hinfo hindex =>
    obtain ⟨a₁, harrayRun⟩ := Variable.check_complete harray a
    obtain ⟨a₂, hindexRun⟩ := Expr.check_complete hindex a₁
    refine ⟨a₂.insert mark.id info.base, ?_⟩
    rw [Variable.check]
    refine run_bind_eq_ok.mpr ⟨_, _, harrayRun, run_bind_eq_ok.mpr ⟨_, _, hindexRun, ?_⟩⟩
    rw [hinfo]
    exact run_note_eq_ok.mpr ⟨rfl, rfl⟩

/-- An expression that has a type passes the check with that type. -/
lemma Expr.check_complete {e : Expr} {t : TypeId} (h : e.HasType tables scope t)
    (a : Annotations) : ∃ b, (e.check tables scope).run a = .ok (t, b) := by
  match e, h with
  | .int mark value, .int => exact ⟨_, run_note_eq_ok.mpr ⟨rfl, rfl⟩⟩
  | .bool mark value, .bool => exact ⟨_, run_note_eq_ok.mpr ⟨rfl, rfl⟩⟩
  | .read mark source, .read hsource =>
    obtain ⟨a₁, hsourceRun⟩ := Variable.check_complete hsource a
    refine ⟨a₁.insert mark.id t, ?_⟩
    rw [Expr.check]
    exact run_bind_eq_ok.mpr ⟨_, _, hsourceRun, run_note_eq_ok.mpr ⟨rfl, rfl⟩⟩
  | .negate mark operand, .negate hoperand =>
    obtain ⟨a₁, hoperandRun⟩ := Expr.check_complete hoperand a
    refine ⟨a₁.insert mark.id .int, ?_⟩
    rw [Expr.check]
    exact run_bind_eq_ok.mpr ⟨_, _, hoperandRun, run_note_eq_ok.mpr ⟨rfl, rfl⟩⟩
  | .binary mark op left right, .arithmetic hop hleft hright =>
    obtain ⟨a₁, hleftRun⟩ := Expr.check_complete hleft a
    obtain ⟨a₂, hrightRun⟩ := Expr.check_complete hright a₁
    refine ⟨a₂.insert mark.id .int, ?_⟩
    rw [Expr.check]
    refine run_bind_eq_ok.mpr ⟨_, _, hleftRun, run_bind_eq_ok.mpr ⟨_, _, hrightRun, ?_⟩⟩
    rw [hop]
    exact run_note_eq_ok.mpr ⟨rfl, rfl⟩
  | .binary mark op left right, .comparison hop hleft hright =>
    obtain ⟨a₁, hleftRun⟩ := Expr.check_complete hleft a
    obtain ⟨a₂, hrightRun⟩ := Expr.check_complete hright a₁
    refine ⟨a₂.insert mark.id .bool, ?_⟩
    rw [Expr.check]
    refine run_bind_eq_ok.mpr ⟨_, _, hleftRun, run_bind_eq_ok.mpr ⟨_, _, hrightRun, ?_⟩⟩
    rw [hop]
    exact run_note_eq_ok.mpr ⟨rfl, rfl⟩

end

/-- Arguments that fit the parameters pass the check. -/
lemma checkArguments_complete {parameters : List Slot} {arguments : List Expr}
    (h : List.Forall₂ (Slot.Accepts tables scope) parameters arguments) (line : UInt32)
    (callee : String) (position : Nat) (a : Annotations) :
    ∃ b, (checkArguments tables scope line callee position parameters arguments).run a =
      .ok ((), b) := by
  induction h generalizing position a with
  | nil => exact ⟨a, rfl⟩
  | @cons parameter argument parameters arguments hfirst _ ih =>
    obtain ⟨htype, hplain⟩ := hfirst
    obtain ⟨a₁, hargumentRun⟩ := Expr.check_complete htype a
    obtain ⟨b, hrestRun⟩ := ih (position + 1) a₁
    refine ⟨b, ?_⟩
    have hguard : (parameter.isReference && argument.variable?.isNone) = false := by
      cases href : parameter.isReference with
      | false => rfl
      | true => simpa [Option.isSome_iff_ne_none] using hplain href
    rw [checkArguments, if_neg (by rw [hguard]; exact Bool.false_ne_true)]
    refine run_bind_eq_ok.mpr ⟨_, _, hargumentRun, ?_⟩
    rw [if_neg (not_not.mpr rfl)]
    exact hrestRun

mutual

/-- A statement that obeys the rules passes the check. -/
lemma Stmt.check_complete {s : Stmt} (h : s.WellTyped tables scope) (a : Annotations) :
    ∃ b, (s.check tables scope).run a = .ok ((), b) := by
  match s, h with
  | .empty mark, .empty => exact ⟨a, rfl⟩
  | .block mark body, .block hbody =>
    obtain ⟨b, hrun⟩ := checkStmts_complete hbody a
    exact ⟨b, hrun⟩
  | .assign mark target value, .assign htarget hvalue =>
    obtain ⟨a₁, htargetRun⟩ := Variable.check_complete htarget a
    obtain ⟨a₂, hvalueRun⟩ := Expr.check_complete hvalue a₁
    refine ⟨a₂, ?_⟩
    rw [Stmt.check]
    exact run_bind_eq_ok.mpr ⟨_, _, htargetRun, run_bind_eq_ok.mpr ⟨_, _, hvalueRun, rfl⟩⟩
  | .ifThen mark test thenPart, .ifThen htest hthen =>
    obtain ⟨a₁, htestRun⟩ := Expr.check_complete htest a
    obtain ⟨a₂, hthenRun⟩ := Stmt.check_complete hthen a₁
    refine ⟨a₂, ?_⟩
    rw [Stmt.check]
    exact run_bind_eq_ok.mpr ⟨_, _, htestRun, hthenRun⟩
  | .ifThenElse mark test thenPart elsePart, .ifThenElse htest hthen helse =>
    obtain ⟨a₁, htestRun⟩ := Expr.check_complete htest a
    obtain ⟨a₂, hthenRun⟩ := Stmt.check_complete hthen a₁
    obtain ⟨a₃, helseRun⟩ := Stmt.check_complete helse a₂
    refine ⟨a₃, ?_⟩
    rw [Stmt.check]
    refine run_bind_eq_ok.mpr ⟨_, _, htestRun, ?_⟩
    exact run_bind_eq_ok.mpr ⟨_, _, hthenRun, helseRun⟩
  | .loop mark test body, .loop htest hbody =>
    obtain ⟨a₁, htestRun⟩ := Expr.check_complete htest a
    obtain ⟨a₂, hbodyRun⟩ := Stmt.check_complete hbody a₁
    refine ⟨a₂, ?_⟩
    rw [Stmt.check]
    exact run_bind_eq_ok.mpr ⟨_, _, htestRun, hbodyRun⟩
  | .call mark callee arguments, .call hentry harguments =>
    obtain ⟨b, hrun⟩ := checkArguments_complete harguments mark.line callee 1 a
    refine ⟨b, ?_⟩
    rw [Stmt.check, checkCall, hentry]
    change ((if _ then _ else _ : Check Unit)).run a = _
    rw [if_neg (not_not.mpr harguments.length_eq)]
    exact hrun

/-- Statements that obey the rules pass the check. -/
lemma checkStmts_complete {l : List Stmt} (h : ∀ s ∈ l, s.WellTyped tables scope)
    (a : Annotations) : ∃ b, (checkStmts tables scope l).run a = .ok ((), b) := by
  match l with
  | [] => exact ⟨a, rfl⟩
  | s :: rest =>
    obtain ⟨hs, hrest⟩ := List.forall_mem_cons.mp h
    obtain ⟨a₁, hsRun⟩ := Stmt.check_complete hs a
    obtain ⟨b, hrestRun⟩ := checkStmts_complete hrest a₁
    refine ⟨b, ?_⟩
    rw [checkStmts]
    exact run_bind_eq_ok.mpr ⟨_, _, hsRun, hrestRun⟩

end

end

end TreeCompiler
