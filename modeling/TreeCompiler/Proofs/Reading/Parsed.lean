import TreeCompiler.Proofs.Reading.Scalar
import TreeCompiler.Proofs.Reading.Tokens

/-!
# Parsing what the grammar says

A JSON text of a value is parsed as the value (`Says.parse`): the scan completes the tokens of the value,
whatever white space and escapes the text has, and these are put together to the value.
-/

namespace TreeCompiler.Json

/-! ### Scanning -/

/-- The scan of characters completes some tokens, of which a number is complete only when something
follows it. -/
def Completes (cs : List Char) (new : List Token) : Prop :=
  Scans .between (utf8 cs) .between new ∨
    ∃ (phase : NumberPhase) (n : NumberText), phase.canEnd = true ∧ new = [n.token] ∧
      Scans .between (utf8 cs) (.number phase n) []

/-- The characters that may follow a value, with the tokens that they are. -/
inductive Follows : Char → List Token → Prop
  | blank {c : Char} (h : Blank c) : Follows c []
  | comma : Follows ',' [.comma]
  | colon : Follows ':' [.colon]
  | sequenceEnd : Follows ']' [.sequenceEnd]
  | mappingEnd : Follows '}' [.mappingEnd]

variable {c : Char} {cs : List Char} {new tokens : List Token}

/-- A character that may follow a value is scanned as its tokens. -/
lemma Follows.scans (h : Follows c tokens) : Scans .between (utf8 [c]) .between tokens := by
  cases h with
  | blank h => rcases h with rfl | rfl | rfl | rfl <;> exact Scans.step rfl
  | _ => exact Scans.step rfl

/-- A character that may follow a value ends a number. -/
lemma Follows.scans_number (h : Follows c tokens) {phase : NumberPhase} (hphase : phase.canEnd = true)
    (n : NumberText) : Scans (.number phase n) (utf8 [c]) .between (n.token :: tokens) := by
  cases phase with
  | sign | point | mark | markSign => cases hphase
  | zero | whole | fraction | power =>
    cases h with
    | blank h => rcases h with rfl | rfl | rfl | rfl <;> exact Scans.step rfl
    | _ => exact Scans.step rfl

/-- Tokens are completed by a character that may follow them. -/
lemma Completes.follow (h : Completes cs new) (hc : Follows c tokens) :
    Scans .between (utf8 (cs ++ [c])) .between (new ++ tokens) := by
  rw [utf8_append]
  rcases h with h | ⟨phase, n, hphase, rfl, h⟩
  · exact h.append hc.scans
  · exact h.append (hc.scans_number hphase n)

/-- The end of the text completes the tokens as well. -/
lemma Completes.tokens_eq (h : Completes cs new) : Json.tokens (utf8 cs) = new := by
  rw [Json.tokens]
  rcases h with h | ⟨phase, n, hphase, rfl, h⟩
  · rw [h []]
    simp [Mode.finish]
  · rw [h []]
    simp [Mode.finish, hphase]

/-- White space completes nothing. -/
lemma scans_blanks {blanks : List Char} (h : ∀ c ∈ blanks, Blank c) :
    Scans .between (utf8 blanks) .between [] := by
  induction blanks with
  | nil => exact Scans.nil
  | cons c rest ih =>
    have hfirst := (Follows.blank (h c List.mem_cons_self)).scans
    have hrest := ih fun c hc => h c (List.mem_cons_of_mem _ hc)
    have hscan := hfirst.append hrest
    rw [← utf8_append] at hscan
    exact hscan

/-- Items with commas between them, up to the end of their list. -/
lemma scans_commaText_items {parts : List (List Char × Value)} (hne : parts ≠ [])
    (h : ∀ x ∈ parts, Completes x.1 (valueTokens x.2)) :
    Scans .between (utf8 (commaText (parts.map Prod.fst) ++ [']'])) .between
      (itemsTokens (.append (parts.map Prod.snd) .done) ++ [.sequenceEnd]) := by
  match parts with
  | [] => exact absurd rfl hne
  | [x] =>
    have hlast := (h x List.mem_cons_self).follow .sequenceEnd
    simpa [commaText, Items.append, itemsTokens, commaToken, noItems] using hlast
  | x :: y :: rest =>
    have hfirst := (h x List.mem_cons_self).follow .comma
    have hrest := scans_commaText_items (List.cons_ne_nil y rest)
      fun x hx => h x (List.mem_cons_of_mem _ hx)
    have hscan := hfirst.append hrest
    rw [← utf8_append] at hscan
    simpa [commaText, Items.append, itemsTokens, commaToken, noItems] using hscan

/-- A field is scanned as its tokens if a character follows that may. -/
lemma Member.scans {m : Member} (hkey : Completes m.keyText [.scalar (.quoted m.key)])
    (hvalue : Completes m.valueText (valueTokens m.value)) (hc : Follows c tokens) :
    Scans .between (utf8 (m.text ++ [c])) .between
      (.scalar (.quoted m.key) :: .colon :: (valueTokens m.value ++ tokens)) := by
  have hscan := (hkey.follow .colon).append (hvalue.follow hc)
  rw [← utf8_append] at hscan
  simpa [Member.text] using hscan

/-- Fields with commas between them, up to the end of their object. -/
lemma scans_commaText_fields {members : List Member} (hne : members ≠ [])
    (hkeys : ∀ m ∈ members, Completes m.keyText [.scalar (.quoted m.key)])
    (hvalues : ∀ m ∈ members, Completes m.valueText (valueTokens m.value)) :
    Scans .between (utf8 (commaText (members.map Member.text) ++ ['}'])) .between
      (fieldsTokens (.append (members.map Member.field) .done) ++ [.mappingEnd]) := by
  match members with
  | [] => exact absurd rfl hne
  | [m] =>
    have hlast := Member.scans (hkeys m List.mem_cons_self) (hvalues m List.mem_cons_self) .mappingEnd
    simpa [commaText, Fields.append, Member.field, fieldsTokens, commaToken, noFields] using hlast
  | m :: m' :: rest =>
    have hfirst := Member.scans (hkeys m List.mem_cons_self) (hvalues m List.mem_cons_self) .comma
    have hrest := scans_commaText_fields (List.cons_ne_nil m' rest)
      (fun m hm => hkeys m (List.mem_cons_of_mem _ hm))
      fun m hm => hvalues m (List.mem_cons_of_mem _ hm)
    have hscan := hfirst.append hrest
    rw [← utf8_append] at hscan
    simpa [commaText, Fields.append, Member.field, fieldsTokens, commaToken, noFields] using hscan

/-- White space up to a character that follows. -/
lemma scans_blanks_append {blanks : List Char} (h : ∀ c ∈ blanks, Blank c) (hc : Follows c tokens) :
    Scans .between (utf8 (blanks ++ [c])) .between tokens := by
  rw [utf8_append]
  exact (scans_blanks h).append hc.scans

/-- An opening bracket and what is behind it. -/
lemma scans_opening {start : Token} (hopening : Scans .between (utf8 [c]) .between [start])
    (hrest : Scans .between (utf8 cs) .between tokens) :
    Scans .between (utf8 (c :: cs)) .between (start :: tokens) := by
  have hscan := hopening.append hrest
  rw [← utf8_append] at hscan
  exact hscan

/-- The scan of a text of a value completes the tokens of the value. -/
lemma Says.completes {v : Value} (h : Says cs v) : Completes cs (valueTokens v) := by
  induction h with
  | @before c cs v hc _ ih =>
    have hblank : ∀ {m new}, Scans .between (utf8 cs) m new → Scans .between (utf8 (c :: cs)) m new := by
      intro m new hscan
      rw [← List.singleton_append, utf8_append]
      exact (Follows.blank hc).scans.append hscan
    rcases ih with ih | ⟨phase, n, hphase, hnew, ih⟩
    · exact .inl (hblank ih)
    · exact .inr ⟨phase, n, hphase, hnew, hblank ih⟩
  | behind _ hc ih =>
    have hscan := ih.follow (.blank hc)
    rw [List.append_nil] at hscan
    exact .inl hscan
  | null => exact .inl fun _ => rfl
  | bool b =>
    refine .inl ?_
    cases b <;> exact fun _ => rfl
  | number h =>
    obtain ⟨phase, hphase, hscan⟩ := h.scans
    refine .inr ⟨phase, _, hphase, ?_, hscan⟩
    rw [NumberText.token, NumberText.inOrder_inOrder, valueTokens]
  | quoted h => exact .inl (scans_quoted h)
  | emptyList h => exact .inl (scans_opening (Scans.step rfl) (scans_blanks_append h .sequenceEnd))
  | list hne _ ih => exact .inl (scans_opening (Scans.step rfl) (scans_commaText_items hne ih))
  | emptyObject h => exact .inl (scans_opening (Scans.step rfl) (scans_blanks_append h .mappingEnd))
  | object hne _ _ ihkeys ihvalues =>
    exact .inl (scans_opening (Scans.step rfl) (scans_commaText_fields hne ihkeys ihvalues))

/-! ### Putting the tokens together -/

/-- One who passes over a list sees what is wrong with its items. -/
lemma flaw_append {values : List Value} (h : ∀ v ∈ values, v.flaw = none) :
    (Items.append values .done).flaw = none := by
  induction values with
  | nil => rfl
  | cons v rest ih =>
    change v.flaw.or (Items.append rest .done).flaw = none
    rw [h v List.mem_cons_self, ih fun v hv => h v (List.mem_cons_of_mem _ hv)]
    rfl

/-- One who passes over an object sees what is wrong with its fields. -/
lemma flaw_append_fields {fields : List (QuotedText × Value)}
    (h : ∀ f ∈ fields, f.1.flaw = none ∧ f.2.flaw = none) :
    (Fields.append fields .done).flaw = none := by
  induction fields with
  | nil => rfl
  | cons f rest ih =>
    change (f.1.flaw.or f.2.flaw).or (Fields.append rest .done).flaw = none
    obtain ⟨hkey, hvalue⟩ := h f List.mem_cons_self
    rw [hkey, hvalue, ih fun f hf => h f (List.mem_cons_of_mem _ hf)]
    rfl

/-- One who passes over what a text says sees nothing wrong with it. -/
lemma Says.flaw_eq_none {v : Value} (h : Says cs v) : v.flaw = none := by
  induction h with
  | before _ _ ih | behind _ _ ih => exact ih
  | null | bool | emptyList | emptyObject => rfl
  | @number _ n _ => exact n.flaw_value
  | @quoted _ signs _ => exact flaw_quotedOf signs
  | list _ _ ih =>
    refine flaw_append fun v hv => ?_
    obtain ⟨x, hx, rfl⟩ := List.mem_map.mp hv
    exact ih x hx
  | object _ _ _ ihkeys ihvalues =>
    refine flaw_append_fields fun f hf => ?_
    obtain ⟨m, hm, rfl⟩ := List.mem_map.mp hf
    exact ⟨ihkeys m hm, ihvalues m hm⟩

/-- The tokens of what a text says are put together to it. -/
lemma Says.spells {v : Value} (h : Says cs v) : Spells (valueTokens v) v := by
  induction h with
  | before _ _ ih | behind _ _ ih => exact ih
  | null | bool => exact spells_scalar rfl
  | @number _ n _ => exact spells_scalar n.flaw_value
  | @quoted _ signs _ =>
    have hflaw : (Scalar.quoted (quotedOf signs)).flaw = none := flaw_quotedOf signs
    exact @spells_scalar _ hflaw
  | emptyList => exact spells_list fun v hv => absurd hv List.not_mem_nil
  | emptyObject => exact spells_object fun f hf => absurd hf List.not_mem_nil
  | list _ _ ih =>
    refine spells_list fun v hv => ?_
    obtain ⟨x, hx, rfl⟩ := List.mem_map.mp hv
    exact ih x hx
  | object _ hkeys _ _ ihvalues =>
    refine spells_mapping (fun f hf => ?_) fun f hf => ?_
    · obtain ⟨m, hm, rfl⟩ := List.mem_map.mp hf
      exact (hkeys m hm).flaw_eq_none
    · obtain ⟨m, hm, rfl⟩ := List.mem_map.mp hf
      exact ihvalues m hm

/-- A text of a value is parsed as the value, with nothing behind it. -/
theorem Says.parse {v : Value} (h : Says cs v) : Json.parse (utf8 cs) = ⟨v, false⟩ := by
  rw [Json.parse, h.completes.tokens_eq, h.spells Place.takesValue_value []]
  rfl

end TreeCompiler.Json
