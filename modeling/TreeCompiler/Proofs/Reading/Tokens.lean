import TreeCompiler.Json.Text
import TreeCompiler.Proofs.Reading.Levels

/-!
# The tokens of a value

The tokens of a JSON text of a value are read off the value (`valueTokens`).  They nest as deep as the
value (`nestingFrom_valueTokens`), and they are put together to the value again wherever a value may
come (`Spells`).
-/

namespace TreeCompiler.Json

/-! ### Levels of a text -/

/-- How many containers are open behind a token. -/
def Token.levelAfter (level : Nat) : Token → Nat
  | .sequenceStart | .mappingStart => level + 1
  | .sequenceEnd | .mappingEnd => level - 1
  | _ => level

/-- How many containers are open at most, from a place on where some are open. -/
def nestingFrom (level : Nat) : List Token → Nat
  | [] => level
  | token :: rest => max level (nestingFrom (token.levelAfter level) rest)

/-- How many containers lie inside each other in a text at most. -/
def nesting (text : String) : Nat := nestingFrom 0 (tokens text.toUTF8.toList)

/-! ### The tokens of a value -/

/-- Whether no items follow. -/
def noItems : Items → Bool
  | .done => true
  | .broken _ | .item _ _ => false

/-- Whether no fields follow. -/
def noFields : Fields → Bool
  | .done => true
  | .broken _ | .noKey _ | .field _ _ _ => false

/-- A comma between two parts. -/
def commaToken (isLast : Bool) : List Token := if isLast then [] else [.comma]

mutual

/-- The tokens of a value. -/
def valueTokens : Value → List Token
  | .scalar s => [.scalar s]
  | .sequence items => .sequenceStart :: (itemsTokens items ++ [.sequenceEnd])
  | .mapping fields => .mappingStart :: (fieldsTokens fields ++ [.mappingEnd])
  | .fault _ => []

/-- The tokens of items, with commas between them. -/
def itemsTokens : Items → List Token
  | .done | .broken _ => []
  | .item value rest =>
    valueTokens value ++ (commaToken (noItems rest) ++ itemsTokens rest)

/-- The tokens of fields, with commas between them. -/
def fieldsTokens : Fields → List Token
  | .done | .broken _ | .noKey _ => []
  | .field key value rest =>
    .scalar (.quoted key) :: .colon ::
      (valueTokens value ++ (commaToken (noFields rest) ++ fieldsTokens rest))

end

/-! ### Nesting -/

/-- Some containers are open at the start. -/
lemma le_nestingFrom (level : Nat) (tokens : List Token) : level ≤ nestingFrom level tokens := by
  cases tokens with
  | nil => exact Nat.le_refl level
  | cons token rest => exact Nat.le_max_left _ _

/-- A comma opens no container. -/
lemma nestingFrom_commaToken (level : Nat) (isLast : Bool) (tokens : List Token) :
    nestingFrom level (commaToken isLast ++ tokens) = nestingFrom level tokens := by
  cases isLast
  · exact Nat.max_eq_right (le_nestingFrom level tokens)
  · rfl

mutual

/-- The tokens of a value nest as deep as the value. -/
lemma nestingFrom_valueTokens (v : Value) (level : Nat) (tokens : List Token) :
    nestingFrom level (valueTokens v ++ tokens) =
      max (level + v.levels) (nestingFrom level tokens) := by
  have hlevel := le_nestingFrom level tokens
  match v with
  | .scalar s => rfl
  | .fault f => exact (Nat.max_eq_right hlevel).symm
  | .sequence items =>
    have hitems := nestingFrom_itemsTokens items (level + 1) (.sequenceEnd :: tokens)
    rw [valueTokens, List.cons_append, List.append_assoc, nestingFrom]
    change max level (nestingFrom (level + 1) (_ ++ .sequenceEnd :: tokens)) = _
    rw [hitems, nestingFrom]
    change max level (max _ (max _ (nestingFrom (level + 1 - 1) tokens))) = _
    rw [Nat.add_sub_cancel, Value.levels]
    omega
  | .mapping fields =>
    have hfields := nestingFrom_fieldsTokens fields (level + 1) (.mappingEnd :: tokens)
    rw [valueTokens, List.cons_append, List.append_assoc, nestingFrom]
    change max level (nestingFrom (level + 1) (_ ++ .mappingEnd :: tokens)) = _
    rw [hfields, nestingFrom]
    change max level (max _ (max _ (nestingFrom (level + 1 - 1) tokens))) = _
    rw [Nat.add_sub_cancel, Value.levels]
    omega

/-- The tokens of items nest as deep as the items. -/
lemma nestingFrom_itemsTokens (items : Items) (level : Nat) (tokens : List Token) :
    nestingFrom level (itemsTokens items ++ tokens) =
      max (level + items.levels) (nestingFrom level tokens) := by
  match items with
  | .done | .broken f => exact (Nat.max_eq_right (le_nestingFrom level tokens)).symm
  | .item value rest =>
    rw [itemsTokens, List.append_assoc, nestingFrom_valueTokens value, List.append_assoc,
      nestingFrom_commaToken, nestingFrom_itemsTokens rest, Items.levels]
    omega

/-- The tokens of fields nest as deep as the fields. -/
lemma nestingFrom_fieldsTokens (fields : Fields) (level : Nat) (tokens : List Token) :
    nestingFrom level (fieldsTokens fields ++ tokens) =
      max (level + fields.levels) (nestingFrom level tokens) := by
  match fields with
  | .done | .broken f | .noKey v => exact (Nat.max_eq_right (le_nestingFrom level tokens)).symm
  | .field key value rest =>
    rw [fieldsTokens, List.cons_append, List.cons_append, List.append_assoc, nestingFrom,
      nestingFrom]
    change max level (max level (nestingFrom level _)) = _
    rw [nestingFrom_valueTokens value, List.append_assoc, nestingFrom_commaToken,
      nestingFrom_fieldsTokens rest, Fields.levels]
    have hlevel := le_nestingFrom level tokens
    omega

end

/-! ### Putting the tokens together -/

/-- A place where a value may come. -/
def Place.TakesValue : Place → Prop
  | .value | .firstItem => True
  | _ => False

/-- A value may come behind a comma or a colon. -/
lemma Place.takesValue_value : Place.value.TakesValue := trivial

/-- A value may come behind the start of a sequence. -/
lemma Place.takesValue_firstItem : Place.firstItem.TakesValue := trivial

/-- Some tokens are put together to a value wherever one may come. -/
def Spells (new : List Token) (v : Value) : Prop :=
  ∀ {place}, place.TakesValue → ∀ stack,
    new.foldl Progress.step (.inside place stack) = putValue v stack

/-- A scalar without a flaw is a value. -/
lemma spells_scalar {s : Scalar} (h : s.flaw = none) : Spells [.scalar s] (.scalar s) := by
  have hput : ∀ stack, putScalar s stack = putValue (.scalar s) stack := by
    intro stack
    rw [putScalar, h]
    rfl
  intro place hplace stack
  cases place with
  | value | firstItem => exact hput stack
  | _ => exact hplace.elim

/-- At least one item and the end of the sequence, behind other items. -/
lemma foldl_items (v : Value) (rest : List Value) (h : ∀ w ∈ v :: rest, Spells (valueTokens w) w)
    {place : Place} (hplace : place.TakesValue) (done : List Value) (stack : List OpenContainer) :
    (itemsTokens (.append (v :: rest) .done) ++ [Token.sequenceEnd]).foldl Progress.step
        (.inside place (.sequence done :: stack)) =
      putValue (.sequence (.append (done.reverse ++ v :: rest) .done)) stack := by
  have hfirst := h v List.mem_cons_self hplace (.sequence done :: stack)
  match rest with
  | [] =>
    have hitems : itemsTokens (.append [v] .done) ++ [.sequenceEnd] =
        valueTokens v ++ [.sequenceEnd] := by
      simp [Items.append, itemsTokens, commaToken, noItems]
    rw [hitems, List.foldl_append, hfirst, ← List.reverse_cons]
    rfl
  | w :: rest =>
    have hitems : itemsTokens (.append (v :: w :: rest) .done) ++ [.sequenceEnd] =
        valueTokens v ++ .comma :: (itemsTokens (.append (w :: rest) .done) ++ [.sequenceEnd]) := by
      simp [Items.append, itemsTokens, commaToken, noItems]
    have hrest := foldl_items w rest (fun v hv => h v (List.mem_cons_of_mem _ hv))
      Place.takesValue_value (v :: done) stack
    rw [List.reverse_cons, List.append_assoc] at hrest
    rw [hitems, List.foldl_append, hfirst, List.foldl_cons]
    exact hrest

/-- The tokens of a list are put together to the list. -/
lemma spells_list {values : List Value} (h : ∀ v ∈ values, Spells (valueTokens v) v) :
    Spells (valueTokens (.list values)) (.list values) := by
  intro place hplace stack
  have hstart : Progress.step (.inside place stack) .sequenceStart =
      .inside .firstItem (.sequence [] :: stack) := by
    cases place with
    | value | firstItem => rfl
    | _ => exact hplace.elim
  rw [Value.list, valueTokens, List.foldl_cons, hstart]
  match values with
  | [] => rfl
  | v :: rest => exact foldl_items v rest h Place.takesValue_firstItem [] stack

/-- A place where a key may come. -/
def Place.TakesKey : Place → Prop
  | .firstKey | .key => True
  | _ => False

/-- A key may come behind the start of a mapping. -/
lemma Place.takesKey_firstKey : Place.firstKey.TakesKey := trivial

/-- A key may come behind a comma. -/
lemma Place.takesKey_key : Place.key.TakesKey := trivial

/-- A key without a flaw and its colon make way for the value of a field. -/
lemma foldl_key {key : QuotedText} (hkey : key.flaw = none) {place : Place} (hplace : place.TakesKey)
    (done : List (QuotedText × Value)) (stack : List OpenContainer) :
    [.scalar (.quoted key), .colon].foldl Progress.step (.inside place (.mapping done :: stack)) =
      .inside .value (.member done key :: stack) := by
  have htake : takeKey key (.mapping done :: stack) =
      .inside (.colon key) (.mapping done :: stack) := by
    unfold takeKey
    rw [hkey]
  have hstep : Progress.step (.inside place (.mapping done :: stack)) (.scalar (.quoted key)) =
      .inside (.colon key) (.mapping done :: stack) := by
    cases place with
    | firstKey | key => exact htake
    | _ => exact hplace.elim
  rw [List.foldl_cons, hstep]
  rfl

/-- At least one field and the end of the mapping, behind other fields. -/
lemma foldl_fields (f : QuotedText × Value) (rest : List (QuotedText × Value))
    (hkeys : ∀ g ∈ f :: rest, g.1.flaw = none) (h : ∀ g ∈ f :: rest, Spells (valueTokens g.2) g.2)
    {place : Place} (hplace : place.TakesKey) (done : List (QuotedText × Value))
    (stack : List OpenContainer) :
    (fieldsTokens (.append (f :: rest) .done) ++ [Token.mappingEnd]).foldl Progress.step
        (.inside place (.mapping done :: stack)) =
      putValue (.mapping (.append (done.reverse ++ f :: rest) .done)) stack := by
  have hkey := foldl_key (hkeys f List.mem_cons_self) hplace done stack
  have hfirst := h f List.mem_cons_self Place.takesValue_value (.member done f.1 :: stack)
  match rest with
  | [] =>
    have hfields : fieldsTokens (.append [f] .done) ++ [.mappingEnd] =
        [.scalar (.quoted f.1), .colon] ++ (valueTokens f.2 ++ [.mappingEnd]) := by
      simp [Fields.append, fieldsTokens, commaToken, noFields]
    rw [hfields, List.foldl_append, hkey, List.foldl_append, hfirst, ← List.reverse_cons]
    rfl
  | g :: rest =>
    have hfields : fieldsTokens (.append (f :: g :: rest) .done) ++ [.mappingEnd] =
        [.scalar (.quoted f.1), .colon] ++ (valueTokens f.2 ++
          .comma :: (fieldsTokens (.append (g :: rest) .done) ++ [.mappingEnd])) := by
      simp [Fields.append, fieldsTokens, commaToken, noFields]
    have hrest := foldl_fields g rest (fun f hf => hkeys f (List.mem_cons_of_mem _ hf))
      (fun f hf => h f (List.mem_cons_of_mem _ hf)) Place.takesKey_key (f :: done) stack
    rw [List.reverse_cons, List.append_assoc] at hrest
    rw [hfields, List.foldl_append, hkey, List.foldl_append, hfirst, List.foldl_cons]
    exact hrest

/-- The tokens of a mapping are put together to the mapping, if its keys have no flaws. -/
lemma spells_mapping {fields : List (QuotedText × Value)} (hkeys : ∀ f ∈ fields, f.1.flaw = none)
    (h : ∀ f ∈ fields, Spells (valueTokens f.2) f.2) :
    Spells (valueTokens (.mapping (.append fields .done))) (.mapping (.append fields .done)) := by
  intro place hplace stack
  have hstart : Progress.step (.inside place stack) .mappingStart =
      .inside .firstKey (.mapping [] :: stack) := by
    cases place with
    | value | firstItem => rfl
    | _ => exact hplace.elim
  rw [valueTokens, List.foldl_cons, hstart]
  match fields with
  | [] => rfl
  | f :: rest => exact foldl_fields f rest hkeys h Place.takesKey_firstKey [] stack

/-- The tokens of an object are put together to the object. -/
lemma spells_object {fields : List (String × Value)}
    (h : ∀ f ∈ fields, Spells (valueTokens f.2) f.2) :
    Spells (valueTokens (.object fields)) (.object fields) := by
  refine spells_mapping (fun f hf => ?_) fun f hf => ?_
  · obtain ⟨g, -, rfl⟩ := List.mem_map.mp hf
    rfl
  · obtain ⟨g, hg, rfl⟩ := List.mem_map.mp hf
    exact h g hg

end TreeCompiler.Json
