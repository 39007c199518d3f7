import TreeCompiler.Proofs.Meaning.Fragment
import TreeCompiler.Proofs.Meaning.Guard

/-!
# Elements of arrays of arrays

The code of a variable with subscripts starts with the address of the array, and goes forward by each
of the indices times the size of what it selects (`Variable.code_eq_subscriptCode`).  Before that it
compares the index with the length, as unsigned words, which is enough to find a negative index too.

So the machine gets to the end of the code exactly if every index is in range, and then it stays in
the storage of the array (`Program.subscripts_stay_inside`): no product overflows, every address on
the way is that of the array plus the terms so far, and there is room for what is selected from there
on to the end of the storage.  That there is room is a fact about the dimensions alone
(`Divides.sum_bounds`), which holds because the size of every array is that of its elements times
their number.

The address of an element is before the end of the storage if there is any storage.  An array whose
elements take no bytes is the exception: its elements are where it is, but that place is not in an
empty stretch of addresses (`Program.subscript_not_inside_hollow`).
-/

namespace TreeCompiler

/-! ### Dimensions -/

/-- A dimension of an array: how many elements there are, and how many bytes each of them takes. -/
structure Dimension where
  length : Nat
  size : Nat
deriving DecidableEq

/-- An index, as a signed integer, is that of an element. -/
def Dimension.Admits (d : Dimension) (i : Bits) : Prop := 0 ≤ i.toInt ∧ i.toInt < d.length

/-- How many bytes an index goes forward. -/
def Dimension.offset (d : Dimension) (i : Bits) : Int := i.toInt * d.size

/-- How many bytes indices go forward, one after the other. -/
def offsets (dims : List Dimension) (values : List Bits) : List Int :=
  List.zipWith Dimension.offset dims values

/-- So many dimensions of a type, from the outside, and the type of what they select. -/
def TypeTable.dimensions? (t : TypeTable) : TypeId → Nat → Option (List Dimension × TypeId)
  | id, 0 => some ([], id)
  | id, n + 1 => do
    let a ← t.array? id
    let (dims, element) ← t.dimensions? a.base n
    return (⟨a.length, t.byteSize a.base⟩ :: dims, element)

/-- Dimensions divide a size into sizes of elements: the elements of each of them are of the size that
the next one divides. -/
def Divides : Nat → List Dimension → Nat → Prop
  | size, [], element => size = element
  | size, d :: dims, element => size = d.length * d.size ∧ Divides d.size dims element

section
variable {d : Dimension} {dims : List Dimension} {i : Bits} {values : List Bits}
  {size element : Nat}

/-- One more dimension divides the elements. -/
lemma Divides.concat (h : Divides size dims (d.length * d.size)) :
    Divides size (dims ++ [d]) d.size := by
  induction dims generalizing size with
  | nil => exact ⟨h, rfl⟩
  | cons d' dims ih => exact ⟨h.1, ih h.2⟩

/-- What an index in range goes forward, and the element from there on, are in the array. -/
lemma Dimension.Admits.offset_bounds (h : d.Admits i) :
    0 ≤ d.offset i ∧ d.offset i + d.size ≤ (d.length * d.size : Nat) := by
  obtain ⟨hnonneg, hlt⟩ := h
  refine ⟨Int.mul_nonneg hnonneg (Int.natCast_nonneg _), ?_⟩
  calc d.offset i + d.size = (i.toInt + 1) * d.size := by
        rw [Dimension.offset, Int.add_mul, Int.one_mul]
    _ ≤ d.length * d.size := Int.mul_le_mul_of_nonneg_right hlt (Int.natCast_nonneg _)
    _ = (d.length * d.size : Nat) := (Int.natCast_mul _ _).symm

/-- Indices in range go forward within the size that the dimensions divide, and there is room for an
element from every place on the way.  They do not go to the end of it unless nothing is there. -/
lemma Divides.sum_bounds (h : Divides size dims element)
    (hin : List.Forall₂ Dimension.Admits dims values) (j : Nat) :
    0 ≤ ((offsets dims values).take j).sum ∧
      ((offsets dims values).take j).sum + element ≤ size ∧
      (0 < size → ((offsets dims values).take j).sum < size) := by
  induction hin generalizing size j with
  | nil =>
    obtain rfl : size = element := h
    simp [offsets]
  | @cons d i dims values hd _ ih =>
    obtain ⟨rfl, hdivides⟩ := h
    obtain ⟨hnonneg, hroom⟩ := hd.offset_bounds
    cases j with
    | zero =>
      have hzero := ih hdivides 0
      simp only [List.take_zero, List.sum_nil] at hzero ⊢
      refine ⟨le_rfl, ?_, fun hpos => by exact_mod_cast hpos⟩
      omega
    | succ j =>
      obtain ⟨hnonneg', hroom', hlt⟩ := ih hdivides j
      have hsum : ((offsets (d :: dims) (i :: values)).take (j + 1)).sum =
          d.offset i + ((offsets dims values).take j).sum := rfl
      rw [hsum]
      refine ⟨Int.add_nonneg hnonneg hnonneg', by omega, fun hpos => ?_⟩
      have hstrict := hlt (Nat.pos_of_mul_pos_left hpos)
      omega

/-- No index in range goes forward further than the size that the dimensions divide. -/
lemma Divides.offset_bounds (h : Divides size dims element)
    (hin : List.Forall₂ Dimension.Admits dims values) :
    ∀ x ∈ offsets dims values, 0 ≤ x ∧ x ≤ size := by
  induction hin generalizing size with
  | nil => exact fun x hx => by cases hx
  | @cons d i dims values hd _ ih =>
    obtain ⟨rfl, hdivides⟩ := h
    obtain ⟨hnonneg, hroom⟩ := hd.offset_bounds
    intro x hx
    rcases List.mem_cons.mp hx with rfl | hx
    · exact ⟨hnonneg, by omega⟩
    · obtain ⟨hx₀, hx₁⟩ := ih hdivides x hx
      exact ⟨hx₀, by omega⟩

/-- One more dimension of a type is that of the array type selected so far. -/
lemma TypeTable.dimensions?_succ {t : TypeTable} {id type : TypeId} {n : Nat} {a : ArrayType}
    (h : t.dimensions? id n = some (dims, type)) (ha : t.array? type = some a) :
    t.dimensions? id (n + 1) = some (dims ++ [⟨a.length, t.byteSize a.base⟩], a.base) := by
  induction n generalizing id dims with
  | zero =>
    cases h
    rw [dimensions?, ha]
    rfl
  | succ n ih =>
    obtain ⟨outer, houter, hrest⟩ := Option.bind_eq_some_iff.mp h
    obtain ⟨⟨inner, type'⟩, hinner, heq⟩ := Option.bind_eq_some_iff.mp hrest
    cases heq
    rw [dimensions?, houter]
    change (t.dimensions? outer.base (n + 1)).bind _ = _
    rw [ih hinner]
    rfl

end

/-! ### Subscripts -/

/-- The name of the variable that a variable is a part of. -/
def Variable.root : Variable → String
  | .named _ name => name
  | .element _ array _ => array.root

/-- The indices of a variable, from left to right. -/
def Variable.indices : Variable → List Expr
  | .named _ _ => []
  | .element _ array index => array.indices ++ [index]

/-- The dimensions that the indices of a variable belong to. -/
def Variable.dimensions (places : List (String × Place)) : Variable → List Dimension
  | .named _ _ => []
  | .element _ array _ => array.dimensions places ++
      match array.shape? places with
      | some (.array length s) => [⟨length, Word.size * s.cells⟩]
      | _ => []

/-- The code for the indices of a variable, with `n` registers in use and `l` labels taken. -/
def Variable.indexCodes (places : List (String × Place)) : Variable → Nat → Nat → List Code
  | .named _ _, _, _ => []
  | .element _ array index, n, l =>
    array.indexCodes places n l ++ [index.code places (n + 1) (l + array.labels)]

/-- The code that goes through dimensions: for each of them the index is evaluated and compared with
the length, and the address goes forward by the index times the size. -/
def subscriptCode (n : Nat) (indexCodes : List Code) (dims : List Dimension) : Code :=
  (List.zipWith (fun c (d : Dimension) => c ++ indexCode n d.length d.size) indexCodes dims).flatten

/-- Code that goes through one more dimension. -/
lemma subscriptCode_concat {n : Nat} {indexCodes : List Code} {dims : List Dimension} {c : Code}
    {d : Dimension} (h : indexCodes.length = dims.length) :
    subscriptCode n (indexCodes ++ [c]) (dims ++ [d]) =
      subscriptCode n indexCodes dims ++ (c ++ indexCode n d.length d.size) := by
  unfold subscriptCode
  rw [List.zipWith_append h, List.flatten_append]
  simp

section
variable {places : List (String × Place)}

/-- The array of an element is an array, and the index is an integer. -/
lemma Variable.shape?_element {mark : Mark} {array : Variable} {index : Expr} {s : ValueShape}
    (h : (Variable.element mark array index).shape? places = some s) :
    ∃ length, array.shape? places = some (.array length s) ∧ index.shape? places = some .int ∧
      (Variable.element mark array index).dimensions places =
        array.dimensions places ++ [⟨length, Word.size * s.cells⟩] := by
  rw [Variable.shape?] at h
  split at h
  · rename_i length s' harray hindex
    cases h
    refine ⟨length, harray, hindex, ?_⟩
    rw [Variable.dimensions, harray]
  · cases h

/-- Every index belongs to a dimension. -/
lemma Variable.length_indexCodes {x : Variable} {s : ValueShape} (hx : x.shape? places = some s)
    (n l : Nat) : (x.indexCodes places n l).length = (x.dimensions places).length := by
  match x with
  | .named _ _ => rfl
  | .element _ array index =>
    obtain ⟨length, harray, -, hdims⟩ := Variable.shape?_element hx
    rw [hdims, Variable.indexCodes, List.length_append, List.length_append,
      Variable.length_indexCodes harray]
    rfl

/-- The code of a variable goes from the array through the dimensions. -/
lemma Variable.code_eq_subscriptCode {x : Variable} {s : ValueShape}
    (hx : x.shape? places = some s) (n l : Nat) : ∃ start, x.code places n l =
      start ++ subscriptCode n (x.indexCodes places n l) (x.dimensions places) := by
  match x with
  | .named _ name =>
    refine ⟨(Variable.named default name).code places n l, ?_⟩
    exact (List.append_nil _).symm
  | .element _ array index =>
    obtain ⟨length, harray, -, hdims⟩ := Variable.shape?_element hx
    obtain ⟨start, hstart⟩ := Variable.code_eq_subscriptCode harray n l
    refine ⟨start, ?_⟩
    rw [hdims, Variable.indexCodes, subscriptCode_concat (Variable.length_indexCodes harray n l),
      Variable.code, harray, hstart]
    simp only [List.append_assoc]

/-- The dimensions of a variable divide the storage of the variable that it is a part of. -/
lemma Variable.divides {x : Variable} {s : ValueShape} (hx : x.shape? places = some s) {p : Place}
    (hp : places.lookup x.root = some p) :
    Divides (Word.size * p.shape.cells) (x.dimensions places) (Word.size * s.cells) := by
  match x with
  | .named _ name =>
    have hp : places.lookup name = some p := hp
    rw [Variable.shape?, hp] at hx
    cases hx
    rfl
  | .element _ array index =>
    obtain ⟨length, harray, -, hdims⟩ := Variable.shape?_element hx
    have hdivides := Variable.divides harray hp
    rw [hdims]
    refine Divides.concat ?_
    rw [ValueShape.cells, Nat.mul_left_comm] at hdivides
    exact hdivides

/-- The dimensions of a variable are those of the type of the variable that it is a part of. -/
lemma Variable.HasType.dimensions?_eq {tables : Tables} {scope : ScopeId}
    {signature : String → Option (List Formal)} (hshows : tables.Shows scope places signature)
    {x : Variable} {t : TypeId} (hx : x.HasType tables scope t) :
    ∃ slot, tables.lookup scope x.root = some (.var slot) ∧
      tables.types.dimensions? slot.type x.indices.length = some (x.dimensions places, t) := by
  match x with
  | .named _ name =>
    cases hx with
    | named hslot => exact ⟨_, hslot, rfl⟩
  | .element mark array index =>
    cases hx with
    | element harray hinfo hindex =>
      obtain ⟨slot, hslot, hdims⟩ := Variable.HasType.dimensions?_eq hshows harray
      obtain ⟨s, hbase, hshape, -⟩ := hshows.wellFormed.array?_spec hinfo
      obtain ⟨s', harrayShape, hshape'⟩ := harray.shape?_eq hshows
      rw [hshape] at hshape'
      cases hshape'
      refine ⟨slot, hslot, ?_⟩
      rw [Variable.indices, List.length_append, List.length_singleton,
        TypeTable.dimensions?_succ hdims hinfo, Variable.dimensions, harrayShape,
        hshows.wellFormed.byteSize_eq hbase]

end

/-! ### Locating elements -/

/-- A location that is moved twice. -/
lemma Location.shift_shift (l : Location) (a b : Nat) : (l.shift a).shift b = l.shift (a + b) := by
  unfold shift
  dsimp only
  rw [Nat.add_assoc]

/-- The index of an element is a natural number. -/
lemma Dimension.Admits.toInt_eq {d : Dimension} {i : Bits} (h : d.Admits i) :
    i.toInt = i.toNat := by
  have hnonneg := h.1
  rw [BitVec.toInt_eq_toNat_cond] at hnonneg ⊢
  split
  · rfl
  · rename_i hlarge
    rw [if_neg hlarge] at hnonneg
    have hlt := i.isLt
    omega

/-- How far one more index goes forward. -/
lemma offsets_concat {dims : List Dimension} {values : List Bits} {d : Dimension} {i : Bits}
    (h : dims.length = values.length) :
    offsets (dims ++ [d]) (values ++ [i]) = offsets dims values ++ [d.offset i] :=
  List.zipWith_append h

/-- A variable of a shape is part of a variable that stands for something, with values for all the
indices. -/
structure View.Selects (v : View) (x : Variable) (s : ValueShape) (p : Place) (b : Binding)
    (values : List Bits) : Prop where
  shape : x.shape? v.places = some s
  place : v.places.lookup x.root = some p
  binding : v.environment.lookup x.root = some b
  sameShape : b.shape = p.shape
  values : List.Forall₂ (fun e i => Expr.evaluate v.environment v.store e = .ok i) x.indices values

section
variable {v : View} {p : Place} {b : Binding}

/-- An element is selected from an array by one more index. -/
lemma View.Selects.element {mark : Mark} {array : Variable} {index : Expr} {s : ValueShape}
    {values : List Bits} (h : v.Selects (.element mark array index) s p b values) :
    ∃ length values' i, v.Selects array (.array length s) p b values' ∧
      values = values' ++ [i] ∧ index.evaluate v.environment v.store = .ok i ∧
      (Variable.element mark array index).dimensions v.places =
        array.dimensions v.places ++ [⟨length, Word.size * s.cells⟩] := by
  obtain ⟨length, harray, -, hdims⟩ := Variable.shape?_element h.shape
  obtain ⟨values', i, hvalues, hrest, hi⟩ := forall₂_concat.mp h.values
  exact ⟨length, values', i, ⟨harray, h.place, h.binding, h.sameShape, hrest⟩, hvalues, hi, hdims⟩

/-- Indices in range go to the cell that they say, and one that is not in range is an error. -/
lemma View.Selects.locate {x : Variable} {s : ValueShape} {values : List Bits}
    (h : v.Selects x s p b values) :
    (List.Forall₂ Dimension.Admits (x.dimensions v.places) values →
      ∃ cells : Nat, x.locate v.environment v.store = .ok ⟨s, b.location.shift cells⟩ ∧
        (Word.size * cells : Int) = (offsets (x.dimensions v.places) values).sum) ∧
    (¬List.Forall₂ Dimension.Admits (x.dimensions v.places) values →
      x.locate v.environment v.store = .error .indexOutOfRange) := by
  match x with
  | .named _ name =>
    obtain rfl := List.forall₂_nil_left_iff.mp h.values
    refine ⟨fun _ => ⟨0, ?_, rfl⟩, fun hnot => absurd .nil hnot⟩
    have hp : v.places.lookup name = some p := h.place
    have hb : v.environment.lookup name = some b := h.binding
    have hshape := h.shape
    rw [Variable.shape?, hp] at hshape
    cases hshape
    rw [Variable.locate, hb, ← h.sameShape]
    rfl
  | .element _ array index =>
    obtain ⟨length, values, i, harray, rfl, hi, hdims⟩ := h.element
    obtain ⟨hadmits, hfails⟩ := harray.locate
    rw [hdims, forall₂_concat_concat, Variable.locate]
    by_cases hin : List.Forall₂ Dimension.Admits (array.dimensions v.places) values
    · obtain ⟨cells, hlocate, hcells⟩ := hadmits hin
      have helement : (do
          let a ← array.locate v.environment v.store
          let i ← index.evaluate v.environment v.store
          a.element i) =
          Binding.element ⟨.array length s, b.location.shift cells⟩ i := by
        rw [hlocate, hi]
        rfl
      rw [helement, Binding.element]
      refine ⟨fun h => ⟨cells + i.toNat * s.cells, ?_, ?_⟩, fun h => ?_⟩
      · rw [← Location.shift_shift]
        exact if_pos h.2
      · rw [offsets_concat hin.length_eq, List.sum_append, ← hcells, List.sum_singleton,
          Dimension.offset, h.2.toInt_eq]
        push_cast
        ring
      · exact if_neg fun hd => h ⟨hin, hd⟩
    · refine ⟨fun h => absurd h.1 hin, fun _ => ?_⟩
      rw [hfails hin]
      rfl

variable {code : Code} (host : Host code) {m : Machine} {n l : Nat} {rest : Code}

/-- The machine gets to the end of the code of a variable whose indices are in range. -/
lemma Variable.code_reaches (hlinked : Linked code) {x : Variable} {s : ValueShape}
    {values : List Bits} (h : v.Selects x s p b values)
    (hin : List.Forall₂ Dimension.Admits (x.dimensions v.places) values) (hshows : v.Shows m)
    (hrun : m.status = .running) (hn : n + x.need ≤ bankSize)
    (hrest : m.rest = x.code v.places n l ++ rest) (hsuffix : m.rest <:+ code) :
    ∃ (m' : Machine) (cells : Nat), host.Reaches m m' ∧ m'.status = .running ∧ m'.rest = rest ∧
      m'.get (bank n) = wordAt (b.location.word v.origin + cells) ∧
      (Word.size * cells : Int) = (offsets (x.dimensions v.places) values).sum := by
  obtain ⟨cells, hlocate, hcells⟩ := h.locate.1 hin
  have hcode := Variable.code_evaluates host hlinked h.shape hshows hrun hn hrest hsuffix
  rw [hlocate] at hcode
  rcases hcode with ⟨b', m', hb', hreaches, -, -, -, haddress, hkeeps, hrest'⟩ | ⟨_, _, hfault, -⟩
  · cases hb'
    refine ⟨m', cells, hreaches, hkeeps.status, hrest', ?_, hcells⟩
    rw [haddress, Location.word_shift]
  · cases hfault

/-- After each of the indices the machine has the address of what is selected so far. -/
lemma Variable.code_reaches_subscript (hlinked : Linked code) {x : Variable} {s : ValueShape}
    {values : List Bits} (h : v.Selects x s p b values)
    (hin : List.Forall₂ Dimension.Admits (x.dimensions v.places) values) (hshows : v.Shows m)
    (hrun : m.status = .running) (hn : n + x.need ≤ bankSize) {rest : Code}
    (hrest : m.rest = x.code v.places n l ++ rest) (hsuffix : m.rest <:+ code) {j : Nat}
    (hj : j ≤ (x.dimensions v.places).length) :
    ∃ (m' : Machine) (cells : Nat), host.Reaches m m' ∧ m'.status = .running ∧
      m'.rest = subscriptCode n ((x.indexCodes v.places n l).drop j)
        ((x.dimensions v.places).drop j) ++ rest ∧
      m'.get (bank n) = wordAt (b.location.word v.origin + cells) ∧
      (Word.size * cells : Int) = ((offsets (x.dimensions v.places) values).take j).sum := by
  rcases Nat.eq_or_lt_of_le hj with hend | hlt
  · -- All the indices are done.
    have hcodes : (x.indexCodes v.places n l).length ≤ j :=
      ((Variable.length_indexCodes h.shape n l).trans hend.symm).le
    have hoffsets : (offsets (x.dimensions v.places) values).length ≤ j := by
      rw [offsets, List.length_zipWith, ← hend]
      exact Nat.min_le_left _ _
    rw [List.drop_of_length_le hcodes, List.drop_of_length_le hend.ge,
      List.take_of_length_le hoffsets]
    exact Variable.code_reaches host hlinked h hin hshows hrun hn hrest hsuffix
  · -- The last index comes after them, so that they are indices of the array.
    match x with
    | .named _ _ => exact absurd hlt (Nat.not_lt_zero j)
    | .element _ array index =>
      obtain ⟨length, values, i, harray, rfl, -, hdims⟩ := h.element
      rw [hdims] at hlt hin ⊢
      obtain ⟨hin, -⟩ := forall₂_concat_concat.mp hin
      rw [List.length_append, List.length_singleton] at hlt
      have hj : j ≤ (array.dimensions v.places).length := Nat.le_of_lt_succ hlt
      rw [Variable.code, harray.shape, List.append_assoc, List.append_assoc] at hrest
      rw [Variable.need] at hn
      obtain ⟨m', cells, hreaches, hrun', hrest', haddress, hcells⟩ :=
        Variable.code_reaches_subscript hlinked harray hin hshows hrun (by omega) hrest hsuffix hj
      have hlength := Variable.length_indexCodes harray.shape n l
      refine ⟨m', cells, hreaches, hrun', ?_, haddress, ?_⟩
      · rw [hrest', Variable.indexCodes, List.drop_append_of_le_length (hlength ▸ hj),
          List.drop_append_of_le_length hj, subscriptCode_concat
            (by rw [List.length_drop, List.length_drop, hlength])]
        simp only [List.append_assoc]
      · rw [hcells, offsets_concat hin.length_eq, List.take_append_of_le_length]
        rw [offsets, List.length_zipWith, ← hin.length_eq, Nat.min_self]
        exact hj

end

/-! ### Variables of a program -/

/-- Going through dimensions with indices in range stays in the storage of an array, which lies at an
address and is of a size: no index times the size of the elements overflows, and the sum of the terms
so far leaves room for the element that is selected in the end.  After each of the indices the machine
has the sum of the address and the terms so far.

An array without any storage is divided into elements without storage, which are where the array is;
in any other array no sum of terms is the end of the storage. -/
structure Host.StaysInside {code : Code} (host : Host code) (m : Machine) (n : Nat)
    (indexCodes : List Code) (dims : List Dimension) (values : List Bits) (address : Bits)
    (size element : Nat) : Prop where
  storage : address.toNat + size ≤ addresses
  products : ∀ x ∈ offsets dims values, Word.min ≤ x ∧ x ≤ Word.max
  sums : ∀ j, 0 ≤ ((offsets dims values).take j).sum ∧
    ((offsets dims values).take j).sum + element ≤ size ∧
    (0 < size → ((offsets dims values).take j).sum < size)
  reaches : ∀ j ≤ dims.length, ∃ k, (host.after m k).status = .running ∧
    (host.after m k).rest = subscriptCode n (indexCodes.drop j) (dims.drop j) ∧
    (((host.after m k).get (bank n)).toNat : Int) =
      address.toNat + ((offsets dims values).take j).sum

/-- The bytes of a value are a signed word. -/
lemma ValueShape.Fits.bytes_le {s : ValueShape} (h : s.Fits) :
    ((Word.size * s.cells : Nat) : Int) ≤ Word.max := by
  cases s with
  | int | bool => decide
  | array => exact h.2.2

/-- The address of a word that lies so many words further on in a piece of storage. -/
lemma toNat_wordAt_add {w total cells : Nat} (hstorage : Word.size * (w + total) ≤ addresses)
    (hlt : 0 < total → cells < total) (hcells : cells ≤ total) :
    (wordAt (w + cells)).toNat = (wordAt w).toNat + Word.size * cells := by
  rcases Nat.eq_zero_or_pos total with rfl | hpos
  · obtain rfl := Nat.le_zero.mp hcells
    rfl
  · have hcells := hlt hpos
    unfold Word.size at *
    rw [toNat_wordAt, toNat_wordAt] <;> unfold Word.size <;> omega

/-- The code of a variable on its own stays in the storage of the variable that it is a part of, if the
indices are in range. -/
lemma View.Selects.staysInside {v : View} {x : Variable} {s : ValueShape} {p : Place} {b : Binding}
    {values : List Bits} (h : v.Selects x s p b values)
    (hin : List.Forall₂ Dimension.Admits (x.dimensions v.places) values) {m : Machine}
    (hstored : b.Stored v.store v.origin m.memory) {n l : Nat} (host : Host (x.code v.places n l))
    (hshows : v.Shows m) (hrun : m.status = .running) (hn : n + x.need ≤ bankSize)
    (hrest : m.rest = x.code v.places n l) :
    host.StaysInside m n (x.indexCodes v.places n l) (x.dimensions v.places) values
      (wordAt (b.location.word v.origin)) (Word.size * p.shape.cells) (Word.size * s.cells) := by
  have hdivides := Variable.divides h.shape h.place
  have hsums := hdivides.sum_bounds hin
  have hbounded := hstored.bounded
  have hbytes := hstored.fits.bytes_le
  rw [h.sameShape] at hbounded hbytes
  refine ⟨?_, fun o ho => ?_, hsums, fun j hj => ?_⟩
  · have hle : (wordAt (b.location.word v.origin)).toNat ≤
        Word.size * b.location.word v.origin := by
      rw [wordAt, BitVec.toNat_ofNat]
      exact Nat.mod_le _ _
    rw [Nat.mul_add] at hbounded
    omega
  · obtain ⟨hnonneg, hle⟩ := hdivides.offset_bounds hin o ho
    have hmin : Word.min ≤ 0 := by decide
    exact ⟨hmin.trans hnonneg, hle.trans hbytes⟩
  · have hlinked := (x.links_code v.places n l).linked
    obtain ⟨m', cells, ⟨k, hk⟩, hrun', hrest', haddress, hcells⟩ :=
      Variable.code_reaches_subscript host hlinked h hin hshows hrun hn
        (hrest.trans (List.append_nil _).symm) (hrest ▸ List.suffix_rfl) hj
    refine ⟨k, by rw [hk.after, hrun'], by rw [hk.after, hrest', List.append_nil], ?_⟩
    obtain ⟨-, hroom, hlt⟩ := hsums j
    rw [← hcells] at hroom hlt ⊢
    have hsize : Word.size = 4 := rfl
    rw [hsize] at hroom hlt
    rw [hk.after, haddress, toNat_wordAt_add hbounded (by omega) (by omega)]
    push_cast
    rfl

/-- The code of a variable with subscripts comes to its end exactly if all the indices are in range,
and then it stays in the storage of the array.  The lengths and sizes of the dimensions are those of
the table of types, and they are the ones in the code.  Whether or not the indices are in range, no
index times a size overflows when it is computed. -/
theorem Program.subscripts_stay_inside (definitions : List Definition)
    (declared allocated : Tables) (types : Annotations)
    (hdeclared : (ofDefinitions definitions).declare.runOn .predefined = (.ok (), declared))
    (hchecked : (ofDefinitions definitions).check declared = .ok types)
    (hallocated : (ofDefinitions definitions).allocate.runOn declared = (.ok (), allocated))
    (q : Procedure) (hq : q ∈ (ofDefinitions definitions).procedures) (entry : ProcedureEntry)
    (hentry : allocated.procedure? q.name = some entry) (n l high : Nat) (hn : n ≤ bankSize)
    (v : Variable) (hv : .place v ∈ typedNodesOf q.body) (r : Register) (code : Code) (c : Cursor)
    (hemit : (v.emit allocated types entry.scope).run (.at n l high) = .ok ((r, code), c)) :
    ∃ slot dims element start indexCodes,
      allocated.lookup entry.scope v.root = some (.var slot) ∧
      types.find? v.mark.id = some element ∧
      allocated.types.dimensions? slot.type v.indices.length = some (dims, element) ∧
      r = bank n ∧ code = start ++ subscriptCode n indexCodes dims ∧
      indexCodes.length = dims.length ∧
      ∀ (host : Host code) m environment store origin frame b values,
        m.status = .running → m.rest = code →
        m.AgreesWith allocated entry.scope environment store origin frame →
        environment.lookup v.root = some b →
        List.Forall₂ (fun e i => Expr.evaluate environment store e = .ok i) v.indices values →
        (∀ k, (host.after m k).MultipliesSafely) ∧
        ((∃ k, (host.after m k).AtEnd) ↔ List.Forall₂ Dimension.Admits dims values) ∧
        ((∃ k, (host.after m k).status = .indexError) ↔
          ¬List.Forall₂ Dimension.Admits dims values) ∧
        (List.Forall₂ Dimension.Admits dims values →
          host.StaysInside m n indexCodes dims values (wordAt (b.location.word origin))
            (allocated.types.byteSize slot.type) (allocated.types.byteSize element)) := by
  have hready := ready hdeclared hchecked hallocated
  have hbound := Tables.procedure?_eq_some.mp hentry
  have hshows := hready.laidOut.shows hq hbound
  obtain ⟨t, ht, hfound, hnotes⟩ := hready.node hq hentry hv
  obtain ⟨heq, rfl, hfits⟩ := (Variable.emit_runs hshows ht hnotes hn).of_ok hemit
  cases heq
  obtain ⟨s, hx, hshape⟩ := Variable.HasType.shape?_eq hshows ht
  obtain ⟨slot, hslot, hdims⟩ := Variable.HasType.dimensions?_eq hshows ht
  obtain ⟨start, hstart⟩ := Variable.code_eq_subscriptCode hx n l
  obtain ⟨p, hp, -, -, hslotShape⟩ := hshows.place v.root slot hslot
  have hwellFormed := hready.laidOut.belongTo.wellFormed
  refine ⟨slot, _, t, start, _, hslot, hfound, hdims, rfl, hstart,
    Variable.length_indexCodes hx n l, ?_⟩
  intro host m environment store origin frame b values hrun hrest hagrees hb hvalues
  have hview := hagrees.shows hready.laidOut hq hbound
  obtain ⟨b', hb', hplace, hstored⟩ := hview.memory v.root p hp
  obtain rfl : b' = b := Option.some.inj (hb'.symm.trans hb)
  have hselects : View.Selects ⟨q.places (ofDefinitions definitions).typeNames, environment, store,
      origin, frame⟩ v s p b' values := ⟨hx, hp, hb, hplace.shape, hvalues⟩
  obtain ⟨hadmits, hfails⟩ := hselects.locate
  have hcarries := Variable.carriesOut hx hfits host hview hrun hrest
  have hplaces : ∀ name p, List.lookup name (q.places (ofDefinitions definitions).typeNames) =
      some p → p.shape.Fits := by
    intro name p hp
    obtain ⟨b, -, hplace, hstored⟩ := hview.memory name p hp
    exact hplace.shape ▸ hstored.fits
  have hguards : ∀ k, (host.after m k).Guards _ := Host.guards_after (v.writesFrom_code hfits)
    (v.guarded_code hplaces n l) hrest
  refine ⟨fun k => (hguards k).product, ?_⟩
  by_cases hin : List.Forall₂ Dimension.Admits
      (v.dimensions (q.places (ofDefinitions definitions).typeNames)) values
  · obtain ⟨cells, hlocate, hcells⟩ := hadmits hin
    rw [hlocate] at hcarries
    obtain ⟨k, hend, -⟩ := (hcarries.result _).mpr rfl
    refine ⟨iff_of_true ⟨k, hend⟩ hin, iff_of_false (fun h => ?_) (fun h => h hin), fun _ => ?_⟩
    · cases hcarries.indexError.mp h
    · rw [hwellFormed.byteSize_eq hslotShape, hwellFormed.byteSize_eq hshape]
      exact hselects.staysInside hin hstored host hview hrun hfits hrest
  · rw [hfails hin] at hcarries
    refine ⟨iff_of_false (fun h => ?_) hin, iff_of_true (hcarries.indexError.mpr rfl) hin,
      fun h => absurd h hin⟩
    obtain ⟨k, hend⟩ := h
    cases (hcarries.result _).mp ⟨k, hend, rfl⟩

/-- The code for the address of the element. -/
def gridElementCode : Code := gridElement.code gridPlaces 0 0

/-- What surrounds a machine with the code for the address. -/
def gridElementHost : Host gridElementCode := .plain gridElementCode (by decide)

/-- The dimensions of the array. -/
def gridDimensions : List Dimension := [⟨2, 12⟩, ⟨3, 4⟩]

/-- The element lies 12 and then 8 bytes after the start of the array, whose 24 bytes start at the
address 3976. -/
theorem Program.subscripts_stay_inside_grid : ∃ indexCodes,
    gridElementHost.StaysInside (gridMachine gridElementCode) 0 indexCodes gridDimensions [1, 2]
      (wordAt 994) 24 4 ∧
    offsets gridDimensions [1, 2] = [12, 8] := by
  obtain ⟨hdeclared, hchecked, hallocated⟩ := grid_passes
  have hentry : gridAllocated.procedure? gridMain.name = some gridEntry := by decide +kernel
  have hmem : .place gridElement ∈ typedNodesOf gridMain.body := by
    refine typedNodesOf_subset gridTest_mem ?_
    simp [TypedNode.typedNodes, Expr.typedNodes, Variable.typedNodes, gridTest, gridElement]
  have hemit : (gridElement.emit gridAllocated gridTypes gridEntry.scope).run (.at 0 0 0) =
      .ok ((bank 0, gridElementCode), .at 1 0 3) := by
    decide +kernel
  have hslot : gridAllocated.lookup gridEntry.scope gridElement.root =
      some (.var ⟨⟨3⟩, false, some (-24)⟩) := by
    decide +kernel
  have hdims : gridAllocated.types.dimensions? ⟨3⟩ 2 = some (gridDimensions, .int) := by
    decide +kernel
  obtain ⟨slot, dims, element, start, indexCodes, hslot', -, hdims', -, -, -, hstays⟩ :=
    subscripts_stay_inside grid gridDeclared gridAllocated gridTypes hdeclared hchecked hallocated
      gridMain (List.get_mem _ _) gridEntry hentry 0 0 0 (by decide) gridElement hmem _ _ _ hemit
  rw [hslot] at hslot'
  cases hslot'
  obtain ⟨rfl, rfl⟩ := Prod.mk.inj (Option.some.inj (hdims.symm.trans hdims'))
  have hvalues : List.Forall₂
      (fun e i => Expr.evaluate gridEnvironment gridStore e = .ok i) gridElement.indices [1, 2] :=
    .cons rfl (.cons rfl .nil)
  have hadmits : List.Forall₂ Dimension.Admits gridDimensions [1, 2] :=
    .cons ⟨by decide, by decide⟩ (.cons ⟨by decide, by decide⟩ .nil)
  obtain ⟨-, -, -, hinside⟩ := hstays gridElementHost _ _ _ _ _ _ _ rfl rfl
    (gridMachine_agreesWith gridElementCode) rfl hvalues
  have hsize : gridAllocated.types.byteSize ⟨3⟩ = 24 := by decide +kernel
  have helement : gridAllocated.types.byteSize .int = 4 := rfl
  rw [hsize, helement] at hinside
  exact ⟨indexCodes, hinside hadmits, rfl⟩

/-! ### An array without bytes -/

/-- A program with an array whose elements take no bytes, and with a call that one of them is passed
to. -/
def hollow : List Definition :=
  [.type ⟨.atLine 1, "none", .array (.atLine 1) 0 (.named (.atLine 1) "int")⟩,
   .procedure
    { mark := .atLine 2
      name := "skip"
      parameters := [⟨.atLine 2, "a", .named (.atLine 2) "none", true⟩]
      locals := []
      body := [] },
   .procedure
    { mark := .atLine 3
      name := "main"
      parameters := []
      locals := [⟨.atLine 4, "x", .array (.atLine 4) 2 (.named (.atLine 4) "none")⟩]
      body := [.call (.atLine 5) "skip" [.read (.atLine 5)
        (.element (.atLine 5) (.named (.atLine 5) "x") (.int (.atLine 5) 1))]] }]

/-- The tables in which the program is declared. -/
def hollowDeclared : Tables := ((Program.ofDefinitions hollow).declare.runOn .predefined).2

/-- The types of the nodes of the program. -/
def hollowTypes : Annotations :=
  ((Program.ofDefinitions hollow).check hollowDeclared).toOption.getD {}

/-- The tables in which the frames of the program are laid out. -/
def hollowAllocated : Tables := ((Program.ofDefinitions hollow).allocate.runOn hollowDeclared).2

/-- The program goes through the passes. -/
lemma hollow_passes :
    (Program.ofDefinitions hollow).declare.runOn .predefined = (.ok (), hollowDeclared) ∧
    (Program.ofDefinitions hollow).check hollowDeclared = .ok hollowTypes ∧
    (Program.ofDefinitions hollow).allocate.runOn hollowDeclared = (.ok (), hollowAllocated) := by
  have hchecked : ((Program.ofDefinitions hollow).check hollowDeclared).isOk = true := by
    decide +kernel
  exact ⟨by decide +kernel, eq_ok_of_isOk hchecked {}, by decide +kernel⟩

/-- The main procedure of the program. -/
def hollowMain : Procedure := (Program.ofDefinitions hollow).procedures.get ⟨1, by decide⟩

/-- The entry of the main procedure. -/
def hollowEntry : ProcedureEntry := (hollowAllocated.procedure? "main").getD default

/-- The element that is passed. -/
def hollowElement : Variable := .element ⟨12, 5⟩ (.named ⟨13, 5⟩ "x") (.int ⟨14, 5⟩ 1)

/-- The element is a node of the main procedure. -/
lemma hollowElement_mem : .place hollowElement ∈ typedNodesOf hollowMain.body := by
  have hbody : hollowMain.body = [.call ⟨10, 5⟩ "skip" [.read ⟨11, 5⟩ hollowElement]] := rfl
  rw [hbody]
  simp [typedNodesOf, Stmt.typedNodes, Expr.typedNodes, hollowElement, Variable.typedNodes]

/-- The places of the variables of the program. -/
def hollowPlaces : List (String × Place) := [("x", ⟨.array 2 (.array 0 .int), false, 0⟩)]

/-- The code for the address of the element. -/
def hollowCode : Code := hollowElement.code hollowPlaces 0 0

/-- What surrounds a machine with the code. -/
def hollowHost : Host hollowCode := .plain hollowCode (by decide)

/-- What the variables of the program stand for. -/
def hollowEnvironment : Environment := [("x", ⟨.array 2 (.array 0 .int), ⟨0, 0⟩⟩)]

/-- A machine in the middle of the main procedure, whose frame pointer is at the word 1000. -/
def hollowMachine : Machine where
  rest := hollowCode
  registers r := if r = .fp then wordAt 1000 else 0
  memory _ := 0
  events := []
  status := .running

/-- The machine agrees with a store, and the array is where the frame pointer is. -/
lemma hollowMachine_agreesWith : hollowMachine.AgreesWith hollowAllocated hollowEntry.scope
    hollowEnvironment (fun _ => 0) (fun _ => 1000) 1000 := by
  have hplaces : hollowMain.places (Program.ofDefinitions hollow).typeNames = hollowPlaces := by
    decide +kernel
  have hready := Program.ready hollow_passes.1 hollow_passes.2.1 hollow_passes.2.2
  apply Machine.agreesWith_of_places hready.laidOut (q := hollowMain) (List.get_mem _ _)
    (by decide +kernel) hplaces rfl
  rw [hollowPlaces, List.forall_mem_singleton]
  exact ⟨⟨.array 2 (.array 0 .int), ⟨0, 0⟩⟩, rfl,
    ⟨rfl, 1000, by decide, nofun, fun _ => rfl⟩,
    ⟨⟨⟨trivial, by decide, by decide⟩, by decide, by decide⟩, by decide, nofun⟩⟩

/-- The element is let through, since its index is in range, but its address is the end of the storage
of the array, which starts there too. -/
theorem Program.subscript_not_inside_hollow :
    ((ofDefinitions hollow).declare.runOn .predefined = (.ok (), hollowDeclared) ∧
      (ofDefinitions hollow).check hollowDeclared = .ok hollowTypes ∧
      (ofDefinitions hollow).allocate.runOn hollowDeclared = (.ok (), hollowAllocated)) ∧
    (.place hollowElement ∈ typedNodesOf hollowMain.body ∧
      (hollowElement.emit hollowAllocated hollowTypes hollowEntry.scope).run (.at 0 0 0) =
        .ok ((bank 0, hollowCode), .at 1 0 3) ∧
      hollowAllocated.lookup hollowEntry.scope hollowElement.root =
        some (.var ⟨⟨3⟩, false, some 0⟩) ∧
      hollowAllocated.types.dimensions? ⟨3⟩ 1 = some ([⟨2, 0⟩], ⟨2⟩)) ∧
    (hollowMachine.AgreesWith hollowAllocated hollowEntry.scope hollowEnvironment (fun _ => 0)
        (fun _ => 1000) 1000 ∧
      (wordAt 1000).toNat + hollowAllocated.types.byteSize ⟨3⟩ ≤ addresses ∧
      List.Forall₂ (fun e i => Expr.evaluate hollowEnvironment (fun _ => 0) e = .ok i)
        hollowElement.indices [1] ∧
      List.Forall₂ Dimension.Admits [⟨2, 0⟩] [1]) ∧
    ∃ k, (hollowHost.after hollowMachine k).AtEnd ∧
      ¬((wordAt 1000).toNat ≤ ((hollowHost.after hollowMachine k).get (bank 0)).toNat ∧
        ((hollowHost.after hollowMachine k).get (bank 0)).toNat <
          (wordAt 1000).toNat + hollowAllocated.types.byteSize ⟨3⟩) := by
  have hsize : hollowAllocated.types.byteSize ⟨3⟩ = 0 := by decide +kernel
  have haddress : (hollowHost.after hollowMachine 6).get (bank 0) = wordAt 1000 := by
    decide +kernel
  refine ⟨hollow_passes, ⟨hollowElement_mem, by decide +kernel, by decide +kernel,
    by decide +kernel⟩, ⟨hollowMachine_agreesWith, ?_, ?_, ?_⟩, 6, ⟨rfl, rfl⟩, ?_⟩
  · rw [hsize]
    decide
  · exact .cons rfl .nil
  · exact .cons ⟨by decide, by decide⟩ .nil
  · rw [haddress, hsize]
    intro hinside
    exact Nat.lt_irrefl _ hinside.2

end TreeCompiler
