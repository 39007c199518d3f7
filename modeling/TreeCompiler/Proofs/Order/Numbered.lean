import TreeCompiler.Proofs.Emission.Code
import TreeCompiler.Proofs.Scope.Declarable
import TreeCompiler.Tree.Numbering

/-!
# What does not depend on the numbers of nodes

Numbering the nodes of a tree changes neither what its types stand for nor what is emitted for it.
The types and the procedures of a program are those of its definitions up to the numbers
(`Program.typeDefs_ofDefinitions`, `Program.procedures_ofDefinitions`), and so a program can be
declared if and only if its definitions can (`Program.declarable_ofDefinitions`).
-/

namespace TreeCompiler

variable {names : List (String × ValueShape)} {places : List (String × Place)}
  {signature : String → Option (List Formal)} {n l : Nat}

/-! ### Types -/

/-- The name that a written type is built on is not numbered. -/
@[simp] lemma TypeExpr.root_number (e : TypeExpr) : (e.number n).root = e.root := by
  induction e generalizing n with
  | named => rfl
  | array mark length base ih => exact ih

/-- A written type stands for the same shape whatever its numbers are. -/
@[simp] lemma TypeExpr.shape?_number (e : TypeExpr) : (e.number n).shape? names = e.shape? names := by
  induction e generalizing n with
  | named => rfl
  | array mark length base ih => rw [number, shape?, shape?, ih]

/-- A written type makes sense whatever its numbers are. -/
@[simp] lemma TypeExpr.admitted_number (e : TypeExpr) :
    (e.number n).Admitted names ↔ e.Admitted names := by
  unfold Admitted
  rw [shape?_number]

/-! ### Expressions -/

mutual

/-- A variable has the same shape whatever its numbers are. -/
@[simp] lemma Variable.shape?_number (v : Variable) (n : Nat) :
    (v.number n).shape? places = v.shape? places := by
  match v with
  | .named _ _ => rfl
  | .element _ array index =>
    rw [Variable.number, Variable.shape?, Variable.shape?, array.shape?_number, index.shape?_number]

/-- An expression has the same shape whatever its numbers are. -/
@[simp] lemma Expr.shape?_number (e : Expr) (n : Nat) :
    (e.number n).shape? places = e.shape? places := by
  match e with
  | .int _ _ | .bool _ _ => rfl
  | .read _ source => rw [Expr.number, Expr.shape?, Expr.shape?, source.shape?_number]
  | .negate _ operand => rw [Expr.number, Expr.shape?, Expr.shape?, operand.shape?_number]
  | .binary _ _ left right =>
    rw [Expr.number, Expr.shape?, Expr.shape?, left.shape?_number, right.shape?_number]

end

mutual

/-- The code of a variable takes the same labels whatever its numbers are. -/
@[simp] lemma Variable.labels_number (v : Variable) (n : Nat) : (v.number n).labels = v.labels := by
  match v with
  | .named _ _ => rfl
  | .element _ array index =>
    rw [Variable.number, Variable.labels, Variable.labels, array.labels_number, index.labels_number]

/-- The code of an expression takes the same labels whatever its numbers are. -/
@[simp] lemma Expr.labels_number (e : Expr) (n : Nat) : (e.number n).labels = e.labels := by
  match e with
  | .int _ _ | .bool _ _ => rfl
  | .read _ source => rw [Expr.number, Expr.labels, Expr.labels, source.labels_number]
  | .negate _ operand => rw [Expr.number, Expr.labels, Expr.labels, operand.labels_number]
  | .binary _ _ left right =>
    rw [Expr.number, Expr.labels, Expr.labels, left.labels_number, right.labels_number]

end

mutual

/-- The code of a variable takes the same registers whatever its numbers are. -/
@[simp] lemma Variable.need_number (v : Variable) (n : Nat) : (v.number n).need = v.need := by
  match v with
  | .named _ _ => rfl
  | .element _ array index =>
    rw [Variable.number, Variable.need, Variable.need, array.need_number, index.need_number]

/-- The code of an expression takes the same registers whatever its numbers are. -/
@[simp] lemma Expr.need_number (e : Expr) (n : Nat) : (e.number n).need = e.need := by
  match e with
  | .int _ _ | .bool _ _ => rfl
  | .read _ source => rw [Expr.number, Expr.need, Expr.need, source.need_number]
  | .negate _ operand => rw [Expr.number, Expr.need, Expr.need, operand.need_number]
  | .binary _ _ left right =>
    rw [Expr.number, Expr.need, Expr.need, left.need_number, right.need_number]

end

mutual

/-- A variable has the same code whatever its numbers are. -/
@[simp] lemma Variable.code_number (v : Variable) (n : Nat) :
    (v.number n).code places = v.code places := by
  match v with
  | .named _ _ => rfl
  | .element _ array index =>
    funext k l
    rw [Variable.number, Variable.code, Variable.code, array.code_number, index.code_number,
      array.labels_number, array.shape?_number]

/-- An expression has the same code whatever its numbers are. -/
@[simp] lemma Expr.code_number (e : Expr) (n : Nat) :
    (e.number n).code places = e.code places := by
  match e with
  | .int _ _ | .bool _ _ => rfl
  | .read _ source =>
    funext k l
    rw [Expr.number, Expr.code, Expr.code, source.code_number]
  | .negate _ operand =>
    funext k l
    rw [Expr.number, Expr.code, Expr.code, operand.code_number]
  | .binary _ _ left right =>
    funext k l
    rw [Expr.number, Expr.code, Expr.code, left.code_number, right.code_number, left.labels_number,
      right.labels_number]

end

/-! ### Statements -/

/-- A condition takes the same labels whatever its numbers are. -/
@[simp] lemma Expr.conditionLabels_number (e : Expr) :
    (e.number n).conditionLabels = e.conditionLabels := by
  cases e with
  | binary mark op left right =>
    have h := (Expr.binary mark op left right).labels_number n
    rw [Expr.number] at h ⊢
    rw [conditionLabels, conditionLabels, h, left.labels_number, right.labels_number]
  | _ => exact Expr.labels_number _ n

/-- A condition has the same code whatever its numbers are. -/
@[simp] lemma Expr.conditionCode_number (e : Expr) {falseLabel : String} :
    (e.number n).conditionCode places falseLabel l = e.conditionCode places falseLabel l := by
  have h : (e.number n).code places = e.code places := e.code_number n
  cases e with
  | binary mark op left right =>
    rw [Expr.number] at h ⊢
    rw [conditionCode, conditionCode, h, left.code_number, right.code_number, left.labels_number]
  | _ => exact congrArg (· 0 l ++ [.branch .eq (bank 0) .zero falseLabel]) h

/-- The variable that is passed to a reference is numbered with the argument. -/
lemma Expr.variable?_number (e : Expr) :
    Expr.variable? (e.number n) = e.variable?.map (Variable.number (n + 1)) := by
  cases e <;> rfl

/-- An argument has the same code whatever its numbers are. -/
@[simp] lemma Formal.argumentCode_number {f : Formal} (e : Expr) :
    f.argumentCode places (e.number n) l = f.argumentCode places e l := by
  unfold argumentCode
  rw [e.variable?_number, e.code_number]
  cases e.variable? with
  | none => rfl
  | some v =>
    rw [Option.map_some]
    dsimp only
    rw [v.code_number]

/-- Arguments, numbered one after the other. -/
abbrev numberExprs : Nat → List Expr → List Expr := numberList (fun e => e.nodes.length) Expr.number

/-- Arguments have the same code whatever their numbers are. -/
lemma argumentsCode_number {formals : List Formal} (arguments : List Expr) {offset : Int} :
    argumentsCode places formals (numberExprs n arguments) offset l =
      argumentsCode places formals arguments offset l := by
  induction arguments generalizing formals offset l n with
  | nil => cases formals <;> rfl
  | cons e rest ih =>
    cases formals with
    | nil => rfl
    | cons f formals =>
      rw [numberExprs, numberList, argumentsCode, argumentsCode, f.argumentCode_number, ih,
        e.labels_number]

/-- Arguments take the same labels whatever their numbers are. -/
lemma argumentsLabels_number (arguments : List Expr) :
    argumentsLabels (numberExprs n arguments) = argumentsLabels arguments := by
  unfold argumentsLabels
  induction arguments generalizing n with
  | nil => rfl
  | cons e rest ih =>
    rw [numberExprs, numberList, List.map_cons, List.map_cons, List.sum_cons, List.sum_cons, ih,
      e.labels_number]

/-- Arguments take the same registers whatever their numbers are. -/
lemma argumentsNeed_number (arguments : List Expr) :
    argumentsNeed (numberExprs n arguments) = argumentsNeed arguments := by
  unfold argumentsNeed
  induction arguments generalizing n with
  | nil => rfl
  | cons e rest ih =>
    rw [numberExprs, numberList, List.map_cons, List.map_cons, List.foldr_cons, List.foldr_cons, ih,
      e.need_number]

mutual

/-- The code of a statement takes the same labels whatever its numbers are. -/
@[simp] lemma Stmt.labels_number (s : Stmt) (n : Nat) : (s.number n).labels = s.labels := by
  match s with
  | .empty _ => rfl
  | .block _ body => rw [Stmt.number, Stmt.labels, Stmt.labels, labelsOf_numberStmts body]
  | .assign _ target value =>
    rw [Stmt.number, Stmt.labels, Stmt.labels, target.labels_number, value.labels_number]
  | .ifThen _ test thenPart =>
    rw [Stmt.number, Stmt.labels, Stmt.labels, test.conditionLabels_number, thenPart.labels_number]
  | .ifThenElse _ test thenPart elsePart =>
    rw [Stmt.number, Stmt.labels, Stmt.labels, test.conditionLabels_number, thenPart.labels_number,
      elsePart.labels_number]
  | .loop _ test body =>
    rw [Stmt.number, Stmt.labels, Stmt.labels, test.conditionLabels_number, body.labels_number]
  | .call _ _ arguments => exact argumentsLabels_number arguments

/-- The code of statements takes the same labels whatever their numbers are. -/
@[simp] lemma labelsOf_numberStmts (body : List Stmt) (n : Nat) :
    labelsOf (numberStmts n body) = labelsOf body := by
  match body with
  | [] => rfl
  | s :: rest =>
    rw [numberStmts, labelsOf, labelsOf, s.labels_number, labelsOf_numberStmts rest]

end

mutual

/-- The code of a statement takes the same registers whatever its numbers are. -/
@[simp] lemma Stmt.need_number (s : Stmt) (n : Nat) : (s.number n).need = s.need := by
  match s with
  | .empty _ => rfl
  | .block _ body => rw [Stmt.number, Stmt.need, Stmt.need, needOf_numberStmts body]
  | .assign _ target value =>
    rw [Stmt.number, Stmt.need, Stmt.need, target.need_number, value.need_number]
  | .ifThen _ test thenPart =>
    rw [Stmt.number, Stmt.need, Stmt.need, test.need_number, thenPart.need_number]
  | .ifThenElse _ test thenPart elsePart =>
    rw [Stmt.number, Stmt.need, Stmt.need, test.need_number, thenPart.need_number,
      elsePart.need_number]
  | .loop _ test body =>
    rw [Stmt.number, Stmt.need, Stmt.need, test.need_number, body.need_number]
  | .call _ _ arguments => exact argumentsNeed_number arguments

/-- The code of statements takes the same registers whatever their numbers are. -/
@[simp] lemma needOf_numberStmts (body : List Stmt) (n : Nat) :
    needOf (numberStmts n body) = needOf body := by
  match body with
  | [] => rfl
  | s :: rest => rw [numberStmts, needOf, needOf, s.need_number, needOf_numberStmts rest]

end

mutual

/-- A statement has the same code whatever its numbers are. -/
@[simp] lemma Stmt.code_number (s : Stmt) (n : Nat) :
    (s.number n).code places signature = s.code places signature := by
  match s with
  | .empty _ => rfl
  | .block _ body =>
    funext l
    rw [Stmt.number, Stmt.code, Stmt.code, codeOf_numberStmts body]
  | .assign _ target value =>
    funext l
    rw [Stmt.number, Stmt.code, Stmt.code, target.code_number, value.code_number,
      target.labels_number]
  | .ifThen _ test thenPart =>
    funext l
    rw [Stmt.number, Stmt.code, Stmt.code, test.conditionCode_number, thenPart.code_number,
      test.conditionLabels_number]
  | .ifThenElse _ test thenPart elsePart =>
    funext l
    rw [Stmt.number, Stmt.code, Stmt.code, test.conditionCode_number, thenPart.code_number,
      elsePart.code_number, test.conditionLabels_number, thenPart.labels_number]
  | .loop _ test body =>
    funext l
    rw [Stmt.number, Stmt.code, Stmt.code, test.conditionCode_number, body.code_number,
      test.conditionLabels_number]
  | .call _ _ arguments =>
    funext l
    rw [Stmt.number, Stmt.code, Stmt.code, argumentsCode_number arguments]

/-- Statements have the same code whatever their numbers are. -/
@[simp] lemma codeOf_numberStmts (body : List Stmt) (n : Nat) :
    codeOf places signature (numberStmts n body) = codeOf places signature body := by
  match body with
  | [] => rfl
  | s :: rest =>
    funext l
    rw [numberStmts, codeOf, codeOf, s.code_number, codeOf_numberStmts rest, s.labels_number]

end

mutual

/-- A statement calls the same procedures whatever its numbers are. -/
lemma Stmt.callees_number (s : Stmt) (n : Nat) :
    (s.number n).calls.map Prod.fst = s.calls.map Prod.fst := by
  match s with
  | .empty _ | .assign _ _ _ | .call _ _ _ => rfl
  | .block _ body => exact callees_numberStmts body _
  | .ifThen _ _ thenPart => exact thenPart.callees_number _
  | .ifThenElse _ _ thenPart elsePart =>
    rw [Stmt.number, Stmt.calls, Stmt.calls, List.map_append, List.map_append,
      thenPart.callees_number, elsePart.callees_number]
  | .loop _ _ body => exact body.callees_number _

/-- Statements call the same procedures whatever their numbers are. -/
lemma callees_numberStmts (body : List Stmt) (n : Nat) :
    (callsOf (numberStmts n body)).map Prod.fst = (callsOf body).map Prod.fst := by
  match body with
  | [] => rfl
  | s :: rest =>
    rw [numberStmts, callsOf, callsOf, List.map_append, List.map_append, s.callees_number,
      callees_numberStmts rest]

end

/-! ### Declarations -/

/-- Two declarations of variables are the same up to the numbers of their types. -/
structure VariableDecl.Alike (d d' : VariableDecl) : Prop where
  name : d'.name = d.name
  isReference : d'.isReference = d.isReference
  type : ∃ n, d'.type = d.type.number n

/-- Numbering elements one after the other numbers each of them. -/
lemma forall₂_numberList {α : Type} {size : α → Nat} {number : Nat → α → α} (l : List α) :
    List.Forall₂ (fun x y => ∃ n, y = number n x) l (numberList size number n l) := by
  induction l generalizing n with
  | nil => exact .nil
  | cons x rest ih => exact .cons ⟨n, rfl⟩ ih

namespace VariableDecl.Alike

variable {d d' : VariableDecl} {ds ds' : List VariableDecl}

/-- Variables that are alike have the same shape. -/
lemma shape? (h : d.Alike d') : d'.type.shape? names = d.type.shape? names := by
  obtain ⟨n, hn⟩ := h.type
  rw [hn, TypeExpr.shape?_number]

/-- Variables that are alike take the same bytes. -/
lemma bytes (h : d.Alike d') : d'.bytes names = d.bytes names := by
  unfold VariableDecl.bytes
  rw [h.shape?]

/-- Variables that are alike have the same place if they have the same offset. -/
lemma place (h : d.Alike d') {offset : Int} : d'.place names offset = d.place names offset := by
  unfold VariableDecl.place
  rw [h.shape?, h.name, h.isReference]

/-- Variables that are alike have the same names. -/
lemma names_eq (h : List.Forall₂ VariableDecl.Alike ds ds') :
    ds'.map VariableDecl.name = ds.map VariableDecl.name :=
  map_eq_of_forall₂ h fun _ _ hd => hd.name

/-- Variables that are alike have the same offsets. -/
lemma offsetsBelow_eq (h : List.Forall₂ VariableDecl.Alike ds ds') {offset : Int} :
    offsetsBelow names offset ds' = offsetsBelow names offset ds := by
  induction h generalizing offset with
  | nil => rfl
  | cons hd _ ih => rw [offsetsBelow, offsetsBelow, hd.bytes, ih]

/-- Variables that are alike have the same places. -/
lemma zipWith_place (h : List.Forall₂ VariableDecl.Alike ds ds') {offsets : List Int} :
    List.zipWith (VariableDecl.place names) ds' offsets =
      List.zipWith (VariableDecl.place names) ds offsets := by
  induction h generalizing offsets with
  | nil => rfl
  | cons hd _ ih =>
    cases offsets with
    | nil => rfl
    | cons offset offsets => rw [List.zipWith_cons_cons, List.zipWith_cons_cons, hd.place, ih]

/-- Variables that are alike are admitted below variables that are alike. -/
lemma admitted_iff (h : d.Alike d') (hds : List.Forall₂ VariableDecl.Alike ds ds') :
    d.Admitted names ds ↔ d'.Admitted names ds' := by
  obtain ⟨n, hn⟩ := h.type
  have hnames := names_eq hds
  constructor
  · rintro ⟨hmain, hfresh, hvisible, htype⟩
    refine ⟨?_, ?_, ?_, ?_⟩
    · rwa [h.name]
    · rwa [h.name, hnames]
    · rwa [hn, TypeExpr.root_number, hnames]
    · rwa [hn, TypeExpr.admitted_number]
  · rintro ⟨hmain, hfresh, hvisible, htype⟩
    rw [h.name] at hmain hfresh
    rw [hn] at hvisible htype
    rw [hnames] at hfresh hvisible
    rw [TypeExpr.root_number] at hvisible
    exact ⟨hmain, hfresh, hvisible, (TypeExpr.admitted_number _).mp htype⟩

end VariableDecl.Alike

/-! ### Procedures -/

namespace Procedure

variable (q : Procedure)

/-- The parameters of a procedure are declared alike whatever their numbers are. -/
lemma parameters_number : List.Forall₂ VariableDecl.Alike (q.parameters.map Parameter.decl)
    ((q.number n).parameters.map Parameter.decl) := by
  rw [List.forall₂_map_left_iff, List.forall₂_map_right_iff]
  refine (forall₂_numberList q.parameters).imp ?_
  rintro x _ ⟨k, rfl⟩
  exact ⟨rfl, rfl, _, rfl⟩

/-- The local variables of a procedure are declared alike whatever their numbers are. -/
lemma locals_number : List.Forall₂ VariableDecl.Alike (q.locals.map LocalVar.decl)
    ((q.number n).locals.map LocalVar.decl) := by
  rw [List.forall₂_map_left_iff, List.forall₂_map_right_iff]
  refine (forall₂_numberList q.locals).imp ?_
  rintro x _ ⟨k, rfl⟩
  exact ⟨rfl, rfl, _, rfl⟩

/-- The variables of a procedure are declared alike whatever their numbers are. -/
lemma decls_number : List.Forall₂ VariableDecl.Alike q.decls (q.number n).decls :=
  List.rel_append q.parameters_number q.locals_number

/-- A procedure has as many parameters whatever their numbers are. -/
lemma length_parameters_number : (q.number n).parameters.length = q.parameters.length := by
  have h := (q.parameters_number (n := n)).length_eq
  rw [List.length_map, List.length_map] at h
  exact h.symm

/-- The variables of a procedure have the same offsets whatever the numbers are. -/
lemma offsets_number : (q.number n).offsets names = q.offsets names := by
  unfold offsets
  rw [q.length_parameters_number, VariableDecl.Alike.offsetsBelow_eq q.locals_number]

/-- The variables of a procedure have the same places whatever the numbers are. -/
lemma places_number : (q.number n).places names = q.places names := by
  unfold places
  rw [q.offsets_number, VariableDecl.Alike.zipWith_place q.decls_number]

/-- The parameters of a procedure are passed in the same way whatever the numbers are. -/
lemma formals_number : (q.number n).formals names = q.formals names := by
  refine map_eq_of_forall₂ (forall₂_numberList q.parameters) ?_
  rintro x _ ⟨k, rfl⟩
  rw [Parameter.number, TypeExpr.shape?_number]

/-- The local variables of a procedure take the same bytes whatever the numbers are. -/
lemma localBytes_number : (q.number n).localBytes names = q.localBytes names := by
  unfold localBytes bytesOf
  rw [map_eq_of_forall₂ q.locals_number fun _ _ hd => hd.bytes]

/-- A procedure calls the same procedures whatever the numbers are. -/
lemma callees_number : (q.number n).calls.map Prod.fst = q.calls.map Prod.fst :=
  callees_numberStmts q.body _

/-- The arguments of callees take the same bytes whatever the numbers are. -/
lemma outgoingBytes_number : (q.number n).outgoingBytes signature = q.outgoingBytes signature := by
  have hsizes : ∀ calls : List (String × List Expr),
      calls.map (fun c => Word.size * ((signature c.1).getD []).length) =
        (calls.map Prod.fst).map fun name => Word.size * ((signature name).getD []).length := by
    intro calls
    rw [List.map_map]
    rfl
  unfold outgoingBytes
  rw [hsizes, hsizes, q.callees_number]

/-- The frame of a procedure takes the same bytes whatever the numbers are. -/
lemma frameBytes_number :
    (q.number n).frameBytes names signature = q.frameBytes names signature := by
  unfold frameBytes
  rw [q.localBytes_number, q.outgoingBytes_number]

/-- Whether a procedure makes calls does not depend on the numbers. -/
lemma isEmpty_calls_number : (q.number n).calls.isEmpty = q.calls.isEmpty := by
  have h := congrArg List.isEmpty (q.callees_number (n := n))
  rwa [List.isEmpty_map, List.isEmpty_map] at h

/-- A procedure has the same code whatever the numbers are. -/
lemma code_number : (q.number n).code names signature = q.code names signature := by
  funext l
  unfold code
  rw [q.frameBytes_number, q.outgoingBytes_number, q.localBytes_number, q.places_number,
    q.isEmpty_calls_number]
  unfold number
  dsimp only
  rw [codeOf_numberStmts]

/-- A procedure is admitted whatever the numbers are. -/
lemma admitted_number : q.Admitted names ↔ (q.number n).Admitted names := by
  have hdecls : InOrder (VariableDecl.Admitted names) q.decls ↔
      InOrder (VariableDecl.Admitted names) (q.number n).decls :=
    inOrder_congr q.decls_number fun _ _ _ _ hbefore hd => hd.admitted_iff hbefore
  have hpassable : (∀ x ∈ q.parameters, x.Passable names) ↔
      ∀ x ∈ (q.number n).parameters, x.Passable names := by
    rw [← inOrder_forall, ← inOrder_forall]
    refine inOrder_congr (forall₂_numberList q.parameters) ?_
    rintro _ _ x _ - ⟨k, rfl⟩
    unfold Parameter.Passable Parameter.number
    rw [TypeExpr.shape?_number]
  exact ⟨fun h => ⟨hdecls.mp h.decls, hpassable.mp h.passable⟩,
    fun h => ⟨hdecls.mpr h.decls, hpassable.mpr h.passable⟩⟩

end Procedure

/-! ### Programs -/

/-- Two type definitions are the same up to the numbers of their types. -/
structure TypeDef.Alike (d d' : TypeDef) : Prop where
  name : d'.name = d.name
  type : ∃ n, d'.type = d.type.number n

/-- Type definitions that are alike have the same names. -/
lemma TypeDef.Alike.names_eq {ds ds' : List TypeDef} (h : List.Forall₂ TypeDef.Alike ds ds') :
    ds'.map TypeDef.name = ds.map TypeDef.name :=
  map_eq_of_forall₂ h fun _ _ hd => hd.name

/-- Type definitions that are alike give names to the same shapes. -/
lemma TypeDef.Alike.typeNamesFrom_eq {ds ds' : List TypeDef}
    (h : List.Forall₂ TypeDef.Alike ds ds') : typeNamesFrom names ds' = typeNamesFrom names ds := by
  induction h generalizing names with
  | nil => rfl
  | cons hd _ ih =>
    obtain ⟨n, hn⟩ := hd.type
    rw [typeNamesFrom, typeNamesFrom, hn, TypeExpr.shape?_number, hd.name]
    split <;> exact ih

namespace Program

variable (definitions : List Definition)

/-- The types of a program are those of its definitions. -/
lemma typeDefs_ofDefinitions : List.Forall₂ TypeDef.Alike (Program.mk definitions).typeDefs
    (ofDefinitions definitions).typeDefs := by
  unfold ofDefinitions typeDefs
  dsimp only
  generalize 0 = n
  induction definitions generalizing n with
  | nil => exact .nil
  | cons d rest ih =>
    cases d with
    | type d => exact .cons ⟨rfl, n + 1, rfl⟩ (ih _)
    | procedure q => exact ih _

/-- The procedures of a program are those of its definitions. -/
lemma procedures_ofDefinitions :
    List.Forall₂ (fun (q q' : Procedure) => ∃ n, q' = q.number n) (Program.mk definitions).procedures
      (ofDefinitions definitions).procedures := by
  unfold ofDefinitions procedures
  dsimp only
  generalize 0 = n
  induction definitions generalizing n with
  | nil => exact .nil
  | cons d rest ih =>
    cases d with
    | type d => exact ih _
    | procedure q => exact .cons ⟨n, rfl⟩ (ih _)

/-- The names of types stand for what the definitions say. -/
lemma typeNames_ofDefinitions :
    (ofDefinitions definitions).typeNames = (Program.mk definitions).typeNames :=
  TypeDef.Alike.typeNamesFrom_eq (typeDefs_ofDefinitions definitions)

/-- What does not depend on numbers is the same for the procedures of a program and for those of its
definitions. -/
lemma map_procedures_ofDefinitions {α : Type} {f : Procedure → α}
    (hf : ∀ (q : Procedure) n, f (q.number n) = f q) :
    (ofDefinitions definitions).procedures.map f = (Program.mk definitions).procedures.map f :=
  map_eq_of_forall₂ (procedures_ofDefinitions definitions) fun q _ ⟨n, hn⟩ => hn ▸ hf q n

/-- The procedures are called as the definitions say. -/
lemma signature_ofDefinitions :
    (ofDefinitions definitions).signature = (Program.mk definitions).signature := by
  funext name
  unfold signature
  rw [typeNames_ofDefinitions]
  have h := procedures_ofDefinitions definitions
  generalize (ofDefinitions definitions).procedures = procedures' at h
  generalize (Program.mk definitions).procedures = procedures at h
  induction h with
  | nil => rfl
  | @cons q _ _ _ hq _ ih =>
    obtain ⟨n, rfl⟩ := hq
    by_cases hname : (q.name == name) = true
    · rw [List.find?_cons_of_pos (by exact hname), List.find?_cons_of_pos (by exact hname)]
      exact congrArg some q.formals_number
    · rw [List.find?_cons_of_neg (by exact hname), List.find?_cons_of_neg (by exact hname)]
      exact ih

/-- A program takes the registers that its definitions do. -/
lemma need_ofDefinitions : (ofDefinitions definitions).need = (Program.mk definitions).need := by
  unfold need
  rw [map_procedures_ofDefinitions definitions fun q n => needOf_numberStmts q.body _]

/-- The code of a program is that of its definitions. -/
lemma code_ofDefinitions : (ofDefinitions definitions).code = (Program.mk definitions).code := by
  unfold code
  rw [typeNames_ofDefinitions, signature_ofDefinitions]
  have h := procedures_ofDefinitions definitions
  generalize (ofDefinitions definitions).procedures = procedures' at h
  generalize (Program.mk definitions).procedures = procedures at h
  generalize 0 = l
  refine congrArg (headCode ++ ·) ?_
  -- by induction on the procedures: a number changes neither the code of one nor its labels
  induction h generalizing l with
  | nil => rfl
  | @cons q _ _ _ hq _ ih =>
    obtain ⟨n, rfl⟩ := hq
    have hlabels : labelsOf (q.number n).body = labelsOf q.body := labelsOf_numberStmts q.body _
    rw [proceduresCode, proceduresCode, q.code_number, hlabels, ih]

/-- A program can be declared if and only if its definitions can. -/
lemma declarable_ofDefinitions :
    (ofDefinitions definitions).Declarable ↔ (Program.mk definitions).Declarable := by
  have htypes : InOrder TypeDef.Admitted (Program.mk definitions).typeDefs ↔
      InOrder TypeDef.Admitted (ofDefinitions definitions).typeDefs := by
    refine inOrder_congr (typeDefs_ofDefinitions definitions) fun before before' d d' hbefore hd => ?_
    obtain ⟨n, hn⟩ := hd.type
    have hnames : globalNames before' [] = globalNames before [] := by
      unfold globalNames
      rw [TypeDef.Alike.names_eq hbefore]
    have htype : d'.type.Admitted (typeNamesFrom primitiveNames before') ↔
        d.type.Admitted (typeNamesFrom primitiveNames before) := by
      rw [TypeDef.Alike.typeNamesFrom_eq hbefore, hn, TypeExpr.admitted_number]
    constructor
    · rintro ⟨hmain, hfresh, hadmitted⟩
      exact ⟨hd.name ▸ hmain, hd.name ▸ hnames ▸ hfresh, htype.mpr hadmitted⟩
    · rintro ⟨hmain, hfresh, hadmitted⟩
      exact ⟨hd.name ▸ hmain, hd.name ▸ hnames ▸ hfresh, htype.mp hadmitted⟩
  have hprocedures : InOrder (fun before (q : Procedure) =>
        q.name ∉ globalNames (Program.mk definitions).typeDefs before ∧
          q.Admitted (Program.mk definitions).typeNames) (Program.mk definitions).procedures ↔
      InOrder (fun before (q : Procedure) =>
        q.name ∉ globalNames (ofDefinitions definitions).typeDefs before ∧
          q.Admitted (ofDefinitions definitions).typeNames)
        (ofDefinitions definitions).procedures := by
    refine inOrder_congr (procedures_ofDefinitions definitions) ?_
    rintro before before' q _ hbefore ⟨n, rfl⟩
    have hnames : before'.map Procedure.name = before.map Procedure.name :=
      map_eq_of_forall₂ hbefore fun q _ ⟨n, hn⟩ => hn ▸ rfl
    unfold globalNames
    rw [typeNames_ofDefinitions, ← q.admitted_number, hnames,
      TypeDef.Alike.names_eq (typeDefs_ofDefinitions definitions)]
    rfl
  exact ⟨fun h => ⟨htypes.mpr h.types, hprocedures.mpr h.procedures⟩,
    fun h => ⟨htypes.mp h.types, hprocedures.mp h.procedures⟩⟩

end Program

end TreeCompiler
