import TreeCompiler.Proofs.Declaration
import TreeCompiler.Proofs.Tree.Numbering
import TreeCompiler.Proofs.Typing.Checker

/-!
# The checker decides the type system

For a program that can be declared, the check succeeds exactly if there is a proper main procedure
and every body obeys the typing rules (`Program.check_eq_ok_iff`).  The annotations then are exactly
the types of the variables and expressions in the bodies, because the numbers of the nodes are all
different (`Program.find?_annotations`).
-/

namespace TreeCompiler

variable {tables : Tables} {p : Program}

/-- What a list without repetitions has in two of its parts is in one and the same part. -/
private lemma eq_of_mem_flatMap {α β : Type} {f : α → List β} {l : List α}
    (h : (l.flatMap f).Nodup) {x y : α} (hx : x ∈ l) (hy : y ∈ l) {b : β} (hbx : b ∈ f x)
    (hby : b ∈ f y) : x = y := by
  induction l with
  | nil => cases hx
  | cons z rest ih =>
    rw [List.flatMap_cons, List.nodup_append] at h
    obtain ⟨-, hrest, hdisjoint⟩ := h
    have hlater : ∀ w ∈ rest, b ∈ f w → b ∉ f z := fun w hw hbw hbz =>
      hdisjoint b hbz b (List.mem_flatMap.mpr ⟨w, hw, hbw⟩) rfl
    rcases List.mem_cons.mp hx with hxz | hx <;> rcases List.mem_cons.mp hy with hyz | hy
    · rw [hxz, hyz]
    · exact absurd (hxz ▸ hbx) (hlater y hy hby)
    · exact absurd (hyz ▸ hby) (hlater x hx hbx)
    · exact ih hrest hx hy

/-! ### One body -/

/-- The check of a body notes the types of its nodes. -/
lemma Procedure.check_sound {q : Procedure} {a b : Annotations}
    (h : (q.check tables).run a = .ok ((), b)) :
    ∃ entry, tables.procedure? q.name = some entry ∧
      (∀ s ∈ q.body, s.WellTyped tables entry.scope) ∧
      Annotations.Extends (TypedNode.HasType tables entry.scope) (typedNodesOf q.body) a b := by
  unfold check at h
  split at h
  · cases h
  · rename_i entry hentry
    exact ⟨entry, hentry, checkStmts_sound h⟩

/-- A well-typed body passes the check. -/
lemma Procedure.check_complete {q : Procedure} (h : q.WellTyped tables) (a : Annotations) :
    ∃ b, (q.check tables).run a = .ok ((), b) := by
  obtain ⟨entry, hentry, hbody⟩ := h
  unfold check
  rw [hentry]
  exact checkStmts_complete hbody a

/-! ### All the bodies -/

/-- A node of the body of a procedure, with the type that it has in the scope of the procedure. -/
def TypedNode.HasTypeIn (tables : Tables) (procedures : List Procedure) (x : TypedNode)
    (t : TypeId) : Prop :=
  ∃ q ∈ procedures, ∃ entry, tables.procedure? q.name = some entry ∧ x ∈ typedNodesOf q.body ∧
    x.HasType tables entry.scope t

/-- The check of all the bodies notes the types of their nodes. -/
lemma checkAll_sound {l : List Procedure} {a b : Annotations}
    (h : (l.forM (Procedure.check tables)).run a = .ok ((), b)) :
    (∀ q ∈ l, q.WellTyped tables) ∧ Annotations.Extends (TypedNode.HasTypeIn tables l)
      (l.flatMap fun q => typedNodesOf q.body) a b := by
  induction l generalizing a with
  | nil =>
    obtain ⟨-, rfl⟩ := run_pure_eq_ok.mp h
    exact ⟨fun _ hq => absurd hq List.not_mem_nil, .refl⟩
  | cons q rest ih =>
    obtain ⟨_, a₁, hq, hrest⟩ := run_bind_eq_ok.mp h
    obtain ⟨entry, hentry, hbody, hnotes⟩ := Procedure.check_sound hq
    obtain ⟨hrestTyped, hrestNotes⟩ := ih hrest
    refine ⟨List.forall_mem_cons.mpr ⟨⟨entry, hentry, hbody⟩, hrestTyped⟩, ?_⟩
    rw [List.flatMap_cons]
    refine (hnotes.mono fun x hx t ht => ?_).trans (hrestNotes.mono fun x _ t ht => ?_)
    · exact ⟨q, List.mem_cons_self, entry, hentry, hx, ht⟩
    · obtain ⟨q', hq', hx'⟩ := ht
      exact ⟨q', List.mem_cons_of_mem _ hq', hx'⟩

/-- Well-typed bodies all pass the check. -/
lemma checkAll_complete {l : List Procedure} (h : ∀ q ∈ l, q.WellTyped tables) (a : Annotations) :
    ∃ b, (l.forM (Procedure.check tables)).run a = .ok ((), b) := by
  induction l generalizing a with
  | nil => exact ⟨a, rfl⟩
  | cons q rest ih =>
    obtain ⟨hq, hrest⟩ := List.forall_mem_cons.mp h
    obtain ⟨a₁, hqRun⟩ := Procedure.check_complete hq a
    obtain ⟨b, hrestRun⟩ := ih hrest a₁
    exact ⟨b, run_bind_eq_ok.mpr ⟨(), a₁, hqRun, hrestRun⟩⟩

/-! ### Programs -/

/-- The main procedure is checked to be there and to have no parameters, and nothing is noted. -/
lemma Program.run_checkMain_eq_ok {a b : Annotations} :
    (p.checkMain tables).run a = .ok ((), b) ↔ tables.HasMain ∧ b = a := by
  unfold checkMain Tables.HasMain
  rw [Tables.lookup_global]
  simp only [Tables.procedure?_eq_some]
  cases hmain : tables.binding? .global mainName with
  | none =>
    rw [run_throw_eq_ok]
    simp
  | some e =>
    cases e with
    | type id =>
      rw [run_throw_eq_ok]
      simp
    | var slot =>
      rw [run_throw_eq_ok]
      simp
    | procedure entry =>
      dsimp only
      split
      · rename_i hempty
        rw [List.isEmpty_iff] at hempty
        rw [run_pure_eq_ok]
        constructor
        · rintro ⟨-, rfl⟩
          exact ⟨⟨entry, rfl, hempty⟩, rfl⟩
        · rintro ⟨-, rfl⟩
          exact ⟨rfl, rfl⟩
      · rename_i hempty
        simp only [run_throw_eq_ok, false_iff]
        rintro ⟨⟨entry', hentry', hempty'⟩, -⟩
        cases hentry'
        exact hempty (List.isEmpty_iff.mpr hempty')

/-- What a successful check of a program consists of. -/
lemma Program.check_eq_ok {a : Annotations} : p.check tables = .ok a ↔
    tables.HasMain ∧ (p.procedures.forM (Procedure.check tables)).run {} = .ok ((), a) := by
  have hrun : p.check tables =
      ((p.checkMain tables >>= fun _ => p.procedures.forM (Procedure.check tables)).run {}).map
        Prod.snd := by
    unfold check
    dsimp only
    generalize StateT.run _ ({} : Annotations) = r
    cases r <;> rfl
  have hboth : (p.checkMain tables >>= fun _ => p.procedures.forM (Procedure.check tables)).run {} =
      .ok ((), a) ↔
      tables.HasMain ∧ (p.procedures.forM (Procedure.check tables)).run {} = .ok ((), a) := by
    rw [run_bind_eq_ok]
    constructor
    · rintro ⟨u, s, hs, hrest⟩
      obtain ⟨h, rfl⟩ := run_checkMain_eq_ok.mp hs
      exact ⟨h, hrest⟩
    · rintro ⟨h, hrest⟩
      exact ⟨(), {}, run_checkMain_eq_ok.mpr ⟨h, rfl⟩, hrest⟩
  rw [hrun, ← hboth]
  cases StateT.run _ ({} : Annotations) with
  | error e => simp [Except.map]
  | ok r =>
    obtain ⟨u, b⟩ := r
    simp [Except.map]

/-- The check succeeds exactly if there is a main procedure without parameters and every body obeys
the typing rules. -/
lemma Program.exists_check_eq_ok_iff : (∃ a, p.check tables = .ok a) ↔
    tables.HasMain ∧ ∀ q ∈ p.procedures, q.WellTyped tables := by
  constructor
  · rintro ⟨a, ha⟩
    obtain ⟨hmain, hrun⟩ := check_eq_ok.mp ha
    exact ⟨hmain, (checkAll_sound hrun).1⟩
  · rintro ⟨hmain, htyped⟩
    obtain ⟨a, hrun⟩ := checkAll_complete htyped {}
    exact ⟨a, check_eq_ok.mpr ⟨hmain, hrun⟩⟩

/-- The typed nodes of a program are the nodes of typed kinds in its bodies. -/
lemma Program.map_node_typedNodes (p : Program) : p.typedNodes.map TypedNode.node =
    (p.procedures.flatMap fun q => nodesOf q.body).filter fun n => n.kind.isTyped := by
  unfold typedNodes
  rw [List.map_flatMap, List.filter_flatMap]
  simp only [map_node_typedNodesOf]

/-- The numbers of the typed nodes of a numbered program are all different. -/
lemma Program.nodup_typedNodes (definitions : List Definition) :
    ((ofDefinitions definitions).typedNodes.map TypedNode.id).Nodup := by
  have hids : (ofDefinitions definitions).typedNodes.map TypedNode.id =
      idsOf ((ofDefinitions definitions).typedNodes.map TypedNode.node) := by
    unfold idsOf
    rw [List.map_map]
    rfl
  rw [hids, map_node_typedNodes]
  refine (nodup_idsOf_ofDefinitions definitions).sublist (List.Sublist.map _ ?_)
  exact List.filter_sublist.trans (bodies_sublist (ofDefinitions definitions))

/-- The annotations of a checked program are the types of its typed nodes. -/
lemma Program.find?_annotations {definitions : List Definition} (hp : p = ofDefinitions definitions)
    {a : Annotations} (ha : p.check tables = .ok a) {n : Nat} {t : TypeId} :
    a.find? n = some t ↔ ∃ x ∈ p.typedNodes, x.id = n ∧ x.HasTypeIn tables p.procedures t := by
  subst hp
  have hids := nodup_typedNodes definitions
  have hnotes := (checkAll_sound (check_eq_ok.mp ha).2).2
  refine hnotes.find?_eq_some_iff hids fun x s t hs ht => ?_
  obtain ⟨q, hq, entry, hentry, hx, hs⟩ := hs
  obtain ⟨q', hq', entry', hentry', hx', ht⟩ := ht
  have hsame : q = q' := eq_of_mem_flatMap (List.Nodup.of_map _ hids) hq hq' hx hx'
  subst hsame
  rw [hentry] at hentry'
  cases hentry'
  exact hs.unique ht

/-- The annotation of a node in the body of a procedure is its type in the scope of the procedure. -/
lemma Program.find?_annotations_of_mem {definitions : List Definition}
    (hp : p = ofDefinitions definitions) {a : Annotations} (ha : p.check tables = .ok a)
    {q : Procedure} (hq : q ∈ p.procedures) {entry : ProcedureEntry}
    (hentry : tables.procedure? q.name = some entry) {x : TypedNode} (hx : x ∈ typedNodesOf q.body)
    {t : TypeId} : a.find? x.id = some t ↔ x.HasType tables entry.scope t := by
  have hmem : x ∈ p.typedNodes := List.mem_flatMap.mpr ⟨q, hq, hx⟩
  have hids : (p.typedNodes.map TypedNode.id).Nodup := by
    rw [hp]
    exact nodup_typedNodes definitions
  rw [find?_annotations hp ha]
  constructor
  · rintro ⟨y, hy, hid, q', hq', entry', hentry', hy', ht⟩
    have hsame : y = x := List.inj_on_of_nodup_map hids hy hmem hid
    subst hsame
    have hsame' : q = q' := eq_of_mem_flatMap (List.Nodup.of_map _ hids) hq hq' hx hy'
    subst hsame'
    rw [hentry] at hentry'
    cases hentry'
    exact ht
  · intro ht
    exact ⟨x, hmem, rfl, q, hq, entry, hentry, hx, ht⟩

/-- The annotated numbers are those of the nodes of typed kinds in the bodies. -/
lemma Program.isSome_find?_annotations {definitions : List Definition}
    (hp : p = ofDefinitions definitions) {a : Annotations} (ha : p.check tables = .ok a) {n : Nat} :
    (a.find? n).isSome = true ↔ ∃ q ∈ p.procedures, ∃ node ∈ nodesOf q.body,
      node.kind.isTyped = true ∧ node.mark.id = n := by
  have hnodes : (∃ q ∈ p.procedures, ∃ node ∈ nodesOf q.body,
      node.kind.isTyped = true ∧ node.mark.id = n) ↔ ∃ x ∈ p.typedNodes, x.id = n := by
    have hmem : ∀ node, node ∈ p.typedNodes.map TypedNode.node ↔
        (∃ q ∈ p.procedures, node ∈ nodesOf q.body) ∧ node.kind.isTyped = true := by
      intro node
      rw [map_node_typedNodes, List.mem_filter, List.mem_flatMap]
    constructor
    · rintro ⟨q, hq, node, hnode, hkind, rfl⟩
      obtain ⟨x, hx, rfl⟩ := List.mem_map.mp ((hmem node).mpr ⟨⟨q, hq, hnode⟩, hkind⟩)
      exact ⟨x, hx, rfl⟩
    · rintro ⟨x, hx, rfl⟩
      obtain ⟨⟨q, hq, hnode⟩, hkind⟩ := (hmem x.node).mp (List.mem_map_of_mem hx)
      exact ⟨q, hq, x.node, hnode, hkind, rfl⟩
  rw [hnodes, Option.isSome_iff_exists]
  constructor
  · rintro ⟨t, ht⟩
    obtain ⟨x, hx, hid, -⟩ := (find?_annotations hp ha).mp ht
    exact ⟨x, hx, hid⟩
  · rintro ⟨x, hx, hid⟩
    obtain ⟨t, ht⟩ := (checkAll_sound (check_eq_ok.mp ha).2).2.exists_type hx
    exact ⟨t, (find?_annotations hp ha).mpr ⟨x, hx, hid, ht⟩⟩

/-- The checker decides the type system: for a program that can be declared, the check succeeds
exactly if the global main procedure has no parameters and every statement of every body obeys the
typing rules in the scope of its procedure.  On success the annotated numbers are those of the
variables and expressions in the bodies, and each of them has the type that the rules give it. -/
theorem Program.check_decides_typing (definitions : List Definition) (tables : Tables)
    (declared : (ofDefinitions definitions).declare.runOn .predefined = (.ok (), tables)) :
    ((∃ a, (ofDefinitions definitions).check tables = .ok a) ↔ tables.HasMain ∧
      ∀ q ∈ (ofDefinitions definitions).procedures, q.WellTyped tables) ∧
    ∀ a, (ofDefinitions definitions).check tables = .ok a →
      (∀ n, (a.find? n).isSome = true ↔ ∃ q ∈ (ofDefinitions definitions).procedures,
        ∃ node ∈ nodesOf q.body, node.kind.isTyped = true ∧ node.mark.id = n) ∧
      ∀ q ∈ (ofDefinitions definitions).procedures, ∃ entry,
        tables.procedure? q.name = some entry ∧ ∀ x ∈ typedNodesOf q.body,
          ∀ t, a.find? x.id = some t ↔ x.HasType tables entry.scope t := by
  refine ⟨exists_check_eq_ok_iff, fun a ha => ⟨fun n => isSome_find?_annotations rfl ha, ?_⟩⟩
  intro q hq
  have hbelong : tables.BelongTo (ofDefinitions definitions) :=
    (declare_belongTo (ofDefinitions definitions)).of_ok declared
  obtain ⟨entry, hentry⟩ := hbelong.declared q hq
  have hfound := Tables.procedure?_eq_some.mpr hentry.bound
  exact ⟨entry, hfound, fun x hx t => find?_annotations_of_mem rfl ha hq hfound hx⟩

/-! ### A program -/

/-- A procedure that counts a variable down to zero, and a main procedure that has it count the
element of an array and prints the element. -/
def countdown : List Definition :=
  [.procedure
    { mark := .atLine 1
      name := "count"
      parameters := [⟨.atLine 1, "n", .named (.atLine 1) "int", true⟩]
      locals := []
      body := [.loop (.atLine 2) (.binary (.atLine 2) .gt
          (.read (.atLine 2) (.named (.atLine 2) "n")) (.int (.atLine 2) 0))
        (.assign (.atLine 3) (.named (.atLine 3) "n") (.binary (.atLine 3) .sub
          (.read (.atLine 3) (.named (.atLine 3) "n")) (.int (.atLine 3) 1)))] },
   .procedure
    { mark := .atLine 5
      name := "main"
      parameters := []
      locals := [⟨.atLine 6, "a", .array (.atLine 6) 2 (.named (.atLine 6) "int")⟩]
      body := [
        .assign (.atLine 7) (.element (.atLine 7) (.named (.atLine 7) "a") (.int (.atLine 7) 1))
          (.int (.atLine 7) 3),
        .call (.atLine 8) "count" [.read (.atLine 8) (.element (.atLine 8)
          (.named (.atLine 8) "a") (.int (.atLine 8) 1))],
        .call (.atLine 9) "printi" [.read (.atLine 9) (.element (.atLine 9)
          (.named (.atLine 9) "a") (.int (.atLine 9) 1))]] }]

/-- The tables in which the program is declared. -/
def countdownTables : Tables := ((Program.ofDefinitions countdown).declare.runOn .predefined).2

/-- The program is declared. -/
lemma countdown_declared :
    (Program.ofDefinitions countdown).declare.runOn .predefined = (.ok (), countdownTables) := by
  decide +kernel

/-- The bodies of the program are accepted. -/
lemma exists_countdown_checked :
    ∃ types, (Program.ofDefinitions countdown).check countdownTables = .ok types := by
  have hok : ((Program.ofDefinitions countdown).check countdownTables).isOk = true := by
    decide +kernel
  exact exists_ok_of_isOk hok

/-- The bodies of the program obey the typing rules. -/
theorem Program.check_decides_typing_countdown :
    (ofDefinitions countdown).declare.runOn .predefined = (.ok (), countdownTables) ∧
      countdownTables.HasMain ∧
      ∀ q ∈ (ofDefinitions countdown).procedures, q.WellTyped countdownTables := by
  obtain ⟨haccepted, -⟩ := check_decides_typing countdown countdownTables countdown_declared
  exact ⟨countdown_declared, haccepted.mp exists_countdown_checked⟩

end TreeCompiler
