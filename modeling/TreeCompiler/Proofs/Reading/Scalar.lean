import TreeCompiler.Proofs.Reading.Grammar
import TreeCompiler.Proofs.Reading.Scan

/-!
# Scanning quoted texts and numbers

However a quoted text is spelt, the scan between its quotation marks collects what its parts stand for
(`SignsText.scans`), and this makes the text that the grammar says (`content_addSigns`).  A number is
scanned up to a phase in which it can end, with all of its digits (`Numeral.scans`).
-/

namespace TreeCompiler.Json

/-! ### Bytes of characters -/

/-- A byte of a character is the character itself or none of those below 128. -/
lemma toNat_of_mem_utf8EncodeChar {c : Char} {b : UInt8} (h : b ∈ String.utf8EncodeChar c) :
    b.toNat = c.toNat ∨ 128 ≤ b.toNat := by
  change b.toNat = c.val.toNat ∨ _
  revert h
  fun_cases String.utf8EncodeChar c
  all_goals
    intro h
    simp only [List.mem_cons, List.not_mem_nil, or_false] at h
  case case1 v hv =>
    left
    rw [h, UInt8.toNat_ofNat', Nat.mod_eq_of_lt (by omega)]
  case case2 =>
    right
    rcases h with rfl | rfl <;> rw [UInt8.toNat_ofNat'] <;> omega
  case case3 =>
    right
    rcases h with rfl | rfl | rfl <;> rw [UInt8.toNat_ofNat'] <;> omega
  case case4 =>
    right
    rcases h with rfl | rfl | rfl | rfl <;> rw [UInt8.toNat_ofNat'] <;> omega

/-- No byte of a character that needs no escape could be taken for one. -/
lemma plain_of_mem_utf8EncodeChar {c : Char} (hquote : c ≠ '"') (hslash : c ≠ '\\')
    (hcontrol : 32 ≤ c.toNat) :
    ∀ b ∈ String.utf8EncodeChar c, b ≠ ascii '"' ∧ b ≠ ascii '\\' ∧ ¬b < 0x20 := by
  intro b hb
  have hnat := toNat_of_mem_utf8EncodeChar hb
  have hquote' : c.toNat ≠ 34 := fun h => hquote (Char.toNat_inj.mp h)
  have hslash' : c.toNat ≠ 92 := fun h => hslash (Char.toNat_inj.mp h)
  refine ⟨fun h => ?_, fun h => ?_, fun h => ?_⟩
  · have h34 : b.toNat = 34 := congrArg UInt8.toNat h
    omega
  · have h92 : b.toNat = 92 := congrArg UInt8.toNat h
    omega
  · have h32 : b.toNat < 32 := UInt8.lt_iff_toNat_lt.mp h
    omega

/-! ### Parts of quoted texts -/

namespace QuotedScan

/-- Adds what a part of a quoted text stands for. -/
def addSign (q : QuotedScan) : Sign → QuotedScan
  | .char c => (String.utf8EncodeChar c).foldl addByte q
  | .unit n => q.addUnit n

/-- A scan with half of a surrogate pair has it from then on. -/
lemma unpaired_addBytes {q : QuotedScan} (h : q.unpaired = true) (bytes : List UInt8) :
    (bytes.foldl addByte q).unpaired = true := by
  induction bytes generalizing q with
  | nil => exact h
  | cons b rest ih =>
    refine ih ?_
    change (q.unpaired || q.lead.isSome) = true
    rw [h, Bool.true_or]

/-- Adding a character does not make a surrogate pair incomplete. -/
lemma unpaired_addChar (q : QuotedScan) (code : Nat) : (q.addChar code).unpaired = q.unpaired := rfl

/-- A scan with half of a surrogate pair has it behind any unit. -/
lemma unpaired_addUnit {q : QuotedScan} (h : q.unpaired = true) (n : Nat) :
    (q.addUnit n).unpaired = true := by
  unfold addUnit
  split
  · split
    · rw [unpaired_addChar]
      exact h
    · change (q.unpaired || q.lead.isSome) = true
      rw [h, Bool.true_or]
  · split
    · rfl
    · split
      · exact h
      · rw [unpaired_addChar]
        exact h

/-- A scan with half of a surrogate pair has it behind any part. -/
lemma unpaired_addSign {q : QuotedScan} (h : q.unpaired = true) (sign : Sign) :
    (q.addSign sign).unpaired = true := by
  cases sign with
  | char c => exact unpaired_addBytes h _
  | unit n => exact unpaired_addUnit h n

/-- A scan with half of a surrogate pair has it behind any parts. -/
lemma unpaired_addSigns {q : QuotedScan} (h : q.unpaired = true) (signs : List Sign) :
    (signs.foldl addSign q).unpaired = true := by
  induction signs generalizing q with
  | nil => exact h
  | cons sign rest ih => exact ih (unpaired_addSign h sign)

/-- The bytes of a character behind characters. -/
lemma addBytes_settled (new bytes : List UInt8) :
    new.foldl addByte ⟨bytes, none, false⟩ = ⟨new.reverse ++ bytes, none, false⟩ := by
  induction new generalizing bytes with
  | nil => rfl
  | cons b rest ih =>
    rw [List.foldl_cons, List.reverse_cons, List.append_assoc]
    exact ih (b :: bytes)

/-- A character has a byte. -/
lemma exists_utf8EncodeChar (c : Char) : ∃ b rest, String.utf8EncodeChar c = b :: rest := by
  fun_cases String.utf8EncodeChar c
  all_goals exact ⟨_, _, rfl⟩

/-- A character behind the first half of a surrogate pair leaves the half. -/
lemma unpaired_addSign_char (bytes : List UInt8) (lead : Nat) (c : Char) :
    (addSign ⟨bytes, some lead, false⟩ (.char c)).unpaired = true := by
  obtain ⟨b, rest, hbytes⟩ := exists_utf8EncodeChar c
  have hfirst : (addByte ⟨bytes, some lead, false⟩ b).unpaired = true := rfl
  rw [addSign, hbytes, List.foldl_cons]
  exact unpaired_addBytes hfirst rest

/-- A scan that has half of a surrogate pair has no content. -/
lemma unpaired_settle {q : QuotedScan} (h : q.unpaired = true) : q.settle.unpaired = true := by
  change (q.unpaired || q.lead.isSome) = true
  rw [h, Bool.true_or]

section
variable {bytes : List UInt8} {lead n : Nat}

/-- The first half of a surrogate pair waits for the second one. -/
lemma addUnit_of_isLead (h : IsLead n) :
    addUnit ⟨bytes, none, false⟩ n = ⟨bytes, some n, false⟩ := by
  obtain ⟨hlow, hhigh⟩ := h
  unfold addUnit
  dsimp only
  rw [if_neg (by omega), if_pos ⟨hlow, hhigh⟩]

/-- The second half of a surrogate pair must not come alone. -/
lemma unpaired_addUnit_of_isTrail (h : IsTrail n) :
    (addUnit ⟨bytes, none, false⟩ n).unpaired = true := by
  unfold IsTrail at h
  unfold addUnit
  dsimp only
  rw [if_pos h]

/-- A unit that is no half of a surrogate pair is a character. -/
lemma addUnit_char (hlead : ¬IsLead n) (htrail : ¬IsTrail n) :
    addUnit ⟨bytes, none, false⟩ n =
      ⟨(String.utf8EncodeChar (Char.ofNat n)).reverse ++ bytes, none, false⟩ := by
  unfold IsLead at hlead
  unfold IsTrail at htrail
  unfold addUnit
  dsimp only
  rw [if_neg htrail, if_neg hlead, addChar]

/-- Two halves of a surrogate pair are a character. -/
lemma addUnit_pair (h : IsTrail n) :
    addUnit ⟨bytes, some lead, false⟩ n =
      ⟨(String.utf8EncodeChar (pairChar lead n)).reverse ++ bytes, none, false⟩ := by
  unfold IsTrail at h
  unfold addUnit
  dsimp only
  rw [if_pos h, addChar, pairChar]

/-- The first half of a surrogate pair must not come alone. -/
lemma unpaired_addUnit_of_not_isTrail (h : ¬IsTrail n) :
    (addUnit ⟨bytes, some lead, false⟩ n).unpaired = true := by
  unfold IsTrail at h
  unfold addUnit
  dsimp only
  rw [if_neg h]
  rfl

end

/-- The scan has collected characters behind some bytes, or half of a surrogate pair. -/
def Collects (q : QuotedScan) (bytes : List UInt8) : Option (List Char) → Prop
  | some cs => q = ⟨(utf8 cs).reverse ++ bytes, none, false⟩
  | none => q.settle.unpaired = true

/-- A character comes in front of what is collected behind its bytes. -/
lemma Collects.cons {q : QuotedScan} {c : Char} {bytes : List UInt8} {cs : Option (List Char)}
    (h : q.Collects ((String.utf8EncodeChar c).reverse ++ bytes) cs) :
    q.Collects bytes (cs.map (c :: ·)) := by
  cases cs with
  | none => exact h
  | some cs =>
    change q = ⟨(utf8 (c :: cs)).reverse ++ bytes, none, false⟩
    rw [utf8_cons, List.reverse_append, List.append_assoc]
    exact h

/-- Half of a surrogate pair stays. -/
lemma collects_of_unpaired {q : QuotedScan} (h : q.unpaired = true) (signs : List Sign)
    (bytes : List UInt8) : (signs.foldl addSign q).Collects bytes none :=
  unpaired_settle (unpaired_addSigns h signs)

/-- The scan collects what the parts of a quoted text mean. -/
lemma collects_addSigns (signs : List Sign) (lead : Option Nat) (bytes : List UInt8) :
    (signs.foldl addSign ⟨bytes, lead, false⟩).Collects bytes (meaning lead signs) := by
  induction signs generalizing lead bytes with
  | nil => cases lead <;> rfl
  | cons sign rest ih =>
    rw [List.foldl_cons]
    match lead, sign with
    | none, .char c =>
      rw [addSign, addBytes_settled]
      exact (ih none _).cons
    | some n, .char c => exact collects_of_unpaired (unpaired_addSign_char bytes n c) rest bytes
    | none, .unit n =>
      rw [addSign, meaning]
      by_cases hlead : IsLead n
      · rw [if_pos hlead, addUnit_of_isLead hlead]
        exact ih (some n) bytes
      by_cases htrail : IsTrail n
      · rw [if_neg hlead, if_pos htrail]
        exact collects_of_unpaired (unpaired_addUnit_of_isTrail htrail) rest bytes
      · rw [if_neg hlead, if_neg htrail, addUnit_char hlead htrail]
        exact (ih none _).cons
    | some lead, .unit n =>
      rw [addSign, meaning]
      by_cases htrail : IsTrail n
      · rw [if_pos htrail, addUnit_pair htrail]
        exact (ih none _).cons
      · rw [if_neg htrail]
        exact collects_of_unpaired (unpaired_addUnit_of_not_isTrail htrail) rest bytes

/-- The content of a scan is what its parts mean. -/
lemma content_addSigns (signs : List Sign) :
    content (signs.foldl addSign ⟨[], none, false⟩) = (quotedOf signs).content := by
  have hcollects := collects_addSigns signs none []
  rw [quotedOf]
  cases hmeaning : meaning none signs with
  | none =>
    rw [hmeaning] at hcollects
    have hunpaired : (signs.foldl addSign ⟨[], none, false⟩).settle.unpaired = true := hcollects
    rw [content, if_pos hunpaired]
  | some cs =>
    rw [hmeaning] at hcollects
    change _ = _ at hcollects
    have hpaired : ¬(settle ⟨(utf8 cs).reverse ++ [], none, false⟩).unpaired = true :=
      Bool.false_ne_true
    rw [hcollects, content, if_neg hpaired, List.append_nil, List.reverse_reverse]
    have hbytes := fromUTF8?_utf8 (String.ofList cs)
    rw [String.toList_ofList] at hbytes
    rw [hbytes]
    rfl

end QuotedScan

/-- The scan among the characters of a quoted text. -/
def quotedMode (q : QuotedScan) : Mode := .quoted .text q

/-- Bytes that need no escape are added to what is read. -/
lemma scans_addBytes {new : List UInt8}
    (h : ∀ b ∈ new, b ≠ ascii '"' ∧ b ≠ ascii '\\' ∧ ¬b < 0x20) (q : QuotedScan) :
    Scans (quotedMode q) new (quotedMode (new.foldl QuotedScan.addByte q)) [] := by
  induction new generalizing q with
  | nil => exact Scans.nil
  | cons b rest ih =>
    obtain ⟨hquote, hslash, hcontrol⟩ := h b List.mem_cons_self
    have hstep : (quotedMode q).step b = (quotedMode (q.addByte b), []) := by
      change stepQuoted _ .text b = _
      rw [stepQuoted, if_neg hquote, if_neg hslash, if_neg hcontrol]
      rfl
    exact Scans.cons hstep (ih (fun b hb => h b (List.mem_cons_of_mem _ hb)) (q.addByte b))

/-- A hexadecimal digit is a single byte of the same value. -/
lemma hexDigit?_ascii {c : Char} {d : Nat} (h : baseDigit? 16 c = some d) :
    String.utf8EncodeChar c = [ascii c] ∧ hexDigit? (ascii c) = some d := by
  have hsmall : ∀ n < 128, baseDigit? 16 (Char.ofNat n) = hexDigit? (ascii (Char.ofNat n)) ∧
      String.utf8EncodeChar (Char.ofNat n) = [ascii (Char.ofNat n)] := by
    decide
  have hc : c.toNat < 128 := by
    refine Nat.lt_of_not_le fun hlarge => ?_
    have habove : ∀ d : Char, d.toNat < 128 → ¬c ≤ d := by
      intro d hd hle
      have hnat : c.toNat ≤ d.toNat := UInt32.le_iff_toNat_le.mp hle
      omega
    unfold baseDigit? at h
    rw [if_neg (fun hc => habove '9' (by decide) hc.2), if_neg (fun hc => habove 'f' (by decide) hc.2),
      if_neg (fun hc => habove 'F' (by decide) hc.2)] at h
    cases h
  obtain ⟨hvalue, hbytes⟩ := hsmall c.toNat hc
  rw [Char.ofNat_toNat] at hvalue hbytes
  exact ⟨hbytes, hvalue ▸ h⟩

/-- Hexadecimal digits are bytes of the same value. -/
lemma hexValue?_ascii {digits : List Char} {n : Nat} (h : baseValue? 16 digits = some n) :
    utf8 digits = digits.map ascii ∧ hexValue? (digits.map ascii) = some n := by
  have hfold : ∀ start, digits.foldlM (fun n c => (baseDigit? 16 c).map (16 * n + ·)) start = some n →
      utf8 digits = digits.map ascii ∧ (digits.map ascii).foldlM
        (fun n b => (hexDigit? b).map (16 * n + ·)) start = some n := by
    clear h
    induction digits with
    | nil =>
      intro start hstart
      exact ⟨rfl, hstart⟩
    | cons c rest ih =>
      intro start hstart
      rw [List.foldlM_cons] at hstart
      obtain ⟨next, hnext, hrest⟩ := Option.bind_eq_some_iff.mp hstart
      obtain ⟨d, hd, rfl⟩ := Option.map_eq_some_iff.mp hnext
      obtain ⟨hbytes, hvalue⟩ := hexDigit?_ascii hd
      obtain ⟨hmore, hfold⟩ := ih _ hrest
      refine ⟨?_, ?_⟩
      · rw [utf8_cons, hbytes, hmore]
        rfl
      · rw [List.map_cons, List.foldlM_cons, hvalue]
        exact hfold
  unfold baseValue? at h
  split at h
  · cases h
  · exact hfold 0 h

/-- A part of a quoted text is scanned as what it stands for. -/
lemma SignText.scans {cs : List Char} {sign : Sign} (h : SignText cs sign) (q : QuotedScan) :
    Scans (quotedMode q) (utf8 cs) (quotedMode (q.addSign sign)) [] := by
  cases h with
  | @plain c hquote hslash hcontrol =>
    have hbytes : utf8 [c] = String.utf8EncodeChar c := List.append_nil _
    rw [hbytes]
    exact scans_addBytes (plain_of_mem_utf8EncodeChar hquote hslash hcontrol) q
  | short h =>
    simp only [shortEscapes, List.mem_cons, Prod.mk.injEq, List.not_mem_nil, or_false] at h
    rcases h with ⟨rfl, rfl⟩ | ⟨rfl, rfl⟩ | ⟨rfl, rfl⟩ | ⟨rfl, rfl⟩ | ⟨rfl, rfl⟩ | ⟨rfl, rfl⟩ |
      ⟨rfl, rfl⟩ | ⟨rfl, rfl⟩
    all_goals exact Scans.cons rfl (Scans.step rfl)
  | @unit digits n hlength hvalue =>
    obtain ⟨hbytes, hvalue⟩ := hexValue?_ascii hvalue
    match digits, hlength with
    | [a, b, c, d], _ =>
      have hhead : utf8 ('\\' :: 'u' :: [a, b, c, d]) =
          ascii '\\' :: ascii 'u' :: utf8 [a, b, c, d] := rfl
      rw [hhead, hbytes]
      refine Scans.cons rfl (Scans.cons rfl (Scans.cons rfl (Scans.cons rfl (Scans.cons rfl
        (Scans.step ?_)))))
      have hstep : stepQuoted q (.hex [ascii c, ascii b, ascii a]) (ascii d) =
          (quotedMode (q.addUnit n), []) := by
        have hdigits : [ascii d, ascii c, ascii b, ascii a].reverse = [a, b, c, d].map ascii := rfl
        rw [stepQuoted, if_neg (by simp), hdigits, hvalue]
        rfl
      exact hstep

/-- The parts of a quoted text are scanned as what they stand for. -/
lemma SignsText.scans {cs : List Char} {signs : List Sign} (h : SignsText cs signs)
    (q : QuotedScan) :
    Scans (quotedMode q) (utf8 cs) (quotedMode (signs.foldl QuotedScan.addSign q)) [] := by
  induction h generalizing q with
  | nil => exact Scans.nil
  | @cons cs rest sign signs hsign _ ih =>
    rw [utf8_append, List.foldl_cons]
    exact (hsign.scans q).append (ih (q.addSign sign))

/-- One who passes over a quoted text sees nothing wrong with it. -/
lemma flaw_quotedOf (signs : List Sign) : (quotedOf signs).flaw = none := by
  unfold quotedOf
  split <;> rfl

/-- A quoted text is scanned as the text that the grammar says. -/
lemma scans_quoted {cs : List Char} {signs : List Sign} (h : SignsText cs signs) :
    Scans .between (utf8 ('"' :: (cs ++ ['"']))) .between [.scalar (.quoted (quotedOf signs))] := by
  have hclose : (quotedMode (signs.foldl QuotedScan.addSign ⟨[], none, false⟩)).step (ascii '"') =
      (.between, [.scalar (.quoted (quotedOf signs))]) := by
    change (Mode.between, [QuotedScan.close _]) = _
    rw [QuotedScan.close, QuotedScan.content_addSigns, ← flaw_quotedOf signs]
  rw [utf8_cons, utf8_append]
  exact Scans.cons rfl ((h.scans ⟨[], none, false⟩).append (Scans.step hclose))

/-! ### Numbers -/

/-- The bytes of digits. -/
lemma digitChar_spec : ∀ k < 10,
    String.utf8EncodeChar (Nat.digitChar k) = [ascii (Nat.digitChar k)] ∧
    digit? (ascii (Nat.digitChar k)) = some k ∧
    ascii (Nat.digitChar k) ≠ ascii '.' ∧
    ¬(ascii (Nat.digitChar k) = ascii 'e' ∨ ascii (Nat.digitChar k) = ascii 'E') := by
  decide

/-- The scan of a number within its whole part. -/
def wholeMode (negative : Bool) (digits : List Nat) : Mode :=
  .number .whole ⟨negative, digits, none, none⟩

/-- Digits continue a part of a number. -/
lemma scans_partDigits {phase : NumberPhase} (part : List Nat → NumberText)
    (hnext : ∀ k < 10, ∀ before, phase.next? (part before) (ascii (Nat.digitChar k)) =
      some (phase, part (k :: before)))
    {ds : List Nat} (h : ∀ k ∈ ds, k < 10) (before : List Nat) :
    Scans (.number phase (part before)) (utf8 (ds.map Nat.digitChar))
      (.number phase (part (ds.reverse ++ before))) [] := by
  induction ds generalizing before with
  | nil => exact Scans.nil
  | cons k rest ih =>
    have hk := h k List.mem_cons_self
    have hstep : (Mode.number phase (part before)).step (ascii (Nat.digitChar k)) =
        (.number phase (part (k :: before)), []) := by
      rw [Mode.step, stepNumber, hnext k hk]
    have hrest := ih (fun j hj => h j (List.mem_cons_of_mem _ hj)) (k :: before)
    rw [List.map_cons, utf8_cons, (digitChar_spec k hk).1, List.reverse_cons, List.append_assoc]
    exact Scans.cons hstep hrest

/-- Digits continue the whole part of a number. -/
lemma scans_digits (negative : Bool) {ds : List Nat} (h : ∀ k ∈ ds, k < 10) (before : List Nat) :
    Scans (wholeMode negative before) (utf8 (ds.map Nat.digitChar))
      (wholeMode negative (ds.reverse ++ before)) [] := by
  refine scans_partDigits (fun before => ⟨negative, before, none, none⟩) (fun k hk before => ?_) h
    before
  obtain ⟨-, hdigit, hpoint, hmark⟩ := digitChar_spec k hk
  rw [NumberPhase.next?, if_neg hpoint, if_neg hmark, hdigit]
  rfl

/-- The first digit of a number starts its whole part. -/
lemma signMode_step {k : Nat} (hk : k < 10) (hne : k ≠ 0) (negative : Bool) :
    (Mode.number .sign ⟨negative, [], none, none⟩).step (ascii (Nat.digitChar k)) =
      (wholeMode negative [k], []) := by
  rw [Mode.step, stepNumber, NumberPhase.next?, (digitChar_spec k hk).2.1]
  dsimp only [Option.map_some]
  rw [if_neg hne]
  rfl

/-- A digit between tokens starts a number without a sign. -/
lemma between_step_digit {k : Nat} (hk : k < 10) (hne : k ≠ 0) :
    Mode.between.step (ascii (Nat.digitChar k)) = (wholeMode false [k], []) := by
  -- Equality of tokens is not decidable, so that the two parts of the step are decided apart.
  have hdigit : ∀ k < 10, k ≠ 0 →
      (Mode.between.step (ascii (Nat.digitChar k))).1 = wholeMode false [k] ∧
      (Mode.between.step (ascii (Nat.digitChar k))).2.isEmpty = true := by
    decide
  exact Prod.ext (hdigit k hk hne).1 (List.isEmpty_iff.mp (hdigit k hk hne).2)

section
variable {cs : List Char} {negative : Bool} {whole : List Nat} {fraction : Option (List Nat)}
  {power : Option (Bool × List Nat)} {phase : NumberPhase}

/-- The minus sign and the whole part of a number. -/
lemma WholeDigits.scans (h : WholeDigits whole) (negative : Bool) :
    ∃ phase : NumberPhase, (phase = .zero ∨ phase = .whole) ∧
      Scans .between (utf8 (minusText negative ++ digitsText whole))
        (.number phase ⟨negative, whole.reverse, none, none⟩) [] := by
  obtain ⟨⟨hne, hdigits⟩, hzero⟩ := h
  -- The scan takes the first digit alike in front of the number and behind the minus sign.
  obtain ⟨start, hminus, hstart, hfirst⟩ : ∃ start : Mode,
      Scans .between (utf8 (minusText negative)) start [] ∧
        start.step (ascii '0') = (.number .zero ⟨negative, [0], none, none⟩, []) ∧
        ∀ k < 10, k ≠ 0 → start.step (ascii (Nat.digitChar k)) = (wholeMode negative [k], []) := by
    cases negative with
    | false => exact ⟨.between, Scans.nil, rfl, fun k hk hne => between_step_digit hk hne⟩
    | true =>
      exact ⟨.number .sign ⟨true, [], none, none⟩, Scans.step rfl, rfl,
        fun k hk hne => signMode_step hk hne true⟩
  cases whole with
  | nil => exact absurd rfl hne
  | cons d ds =>
    rw [utf8_append]
    by_cases hd : d = 0
    · cases hd
      cases hzero rfl
      exact ⟨.zero, .inl rfl, hminus.append (Scans.step hstart)⟩
    · have hrest := scans_digits negative (fun k hk => hdigits k (List.mem_cons_of_mem _ hk)) [d]
      have hbyte := (digitChar_spec d (hdigits d List.mem_cons_self)).1
      refine ⟨.whole, .inr rfl, hminus.append ?_⟩
      rw [digitsText, List.map_cons, utf8_cons, hbyte, List.reverse_cons]
      exact Scans.cons (hfirst d (hdigits d List.mem_cons_self) hd) hrest

/-- The first digit of a fraction or an exponent, and the others. -/
lemma Digits.scans {digits : List Nat} (h : Digits digits) (n : NumberText) {next : NumberPhase}
    (part : List Nat → NumberText)
    (hfirst : ∀ k < 10, phase.next? n (ascii (Nat.digitChar k)) = some (next, part [k]))
    (hnext : ∀ k < 10, ∀ before, next.next? (part before) (ascii (Nat.digitChar k)) =
      some (next, part (k :: before))) :
    Scans (.number phase n) (utf8 (digitsText digits)) (.number next (part digits.reverse)) [] := by
  obtain ⟨hne, hdigits⟩ := h
  cases digits with
  | nil => exact absurd rfl hne
  | cons k rest =>
    have hk := hdigits k List.mem_cons_self
    have hstep : (Mode.number phase n).step (ascii (Nat.digitChar k)) =
        (.number next (part [k]), []) := by
      rw [Mode.step, stepNumber, hfirst k hk]
    have hrest := scans_partDigits part hnext
      (fun j hj => hdigits j (List.mem_cons_of_mem _ hj)) [k]
    rw [digitsText, List.map_cons, utf8_cons, (digitChar_spec k hk).1, List.reverse_cons]
    exact Scans.cons hstep hrest

/-- The fraction of a number. -/
lemma FractionText.scans (h : FractionText cs fraction) (hphase : phase = .zero ∨ phase = .whole) :
    ∃ next : NumberPhase, (next = .zero ∨ next = .whole ∨ next = .fraction) ∧
      Scans (.number phase ⟨negative, whole, none, none⟩) (utf8 cs)
        (.number next ⟨negative, whole, fraction.map List.reverse, none⟩) [] := by
  cases h with
  | absent => exact ⟨phase, hphase.imp id .inl, Scans.nil⟩
  | @digits digits h =>
    have hpoint : (Mode.number phase ⟨negative, whole, none, none⟩).step (ascii '.') =
        (.number .point ⟨negative, whole, none, none⟩, []) := by
      rcases hphase with rfl | rfl <;> rfl
    have hdigit : ∀ k < 10, digit? (ascii (Nat.digitChar k)) = some k :=
      fun k hk => (digitChar_spec k hk).2.1
    refine ⟨.fraction, .inr (.inr rfl), Scans.cons hpoint <|
      h.scans _ (fun before => ⟨negative, whole, some before, none⟩) (fun k hk => ?_)
        fun k hk before => ?_⟩
    · rw [NumberPhase.next?, hdigit k hk]
      rfl
    · rw [NumberPhase.next?, if_neg (digitChar_spec k hk).2.2.2, hdigit k hk]
      rfl

/-- The digits of an exponent. -/
lemma Digits.scans_power {digits : List Nat} (h : Digits digits) (n : NumberText) (down : Bool)
    (hfirst : ∀ k < 10, phase.next? n (ascii (Nat.digitChar k)) =
      some (.power, ⟨negative, whole, fraction, some (down, [k])⟩)) :
    Scans (.number phase n) (utf8 (digitsText digits))
      (.number .power ⟨negative, whole, fraction, some (down, digits.reverse)⟩) [] := by
  refine h.scans n (fun before => ⟨negative, whole, fraction, some (down, before)⟩) hfirst
    fun k hk before => ?_
  rw [NumberPhase.next?, (digitChar_spec k hk).2.1]
  rfl

/-- The sign and the digits of an exponent. -/
lemma PowerSign.scans {sign : List Char} {down : Bool} {digits : List Nat} (hsign : PowerSign sign down)
    (h : Digits digits) :
    Scans (.number .mark ⟨negative, whole, fraction, none⟩) (utf8 (sign ++ digitsText digits))
      (.number .power ⟨negative, whole, fraction, some (down, digits.reverse)⟩) [] := by
  have hsigned : ∀ down, Scans (.number .markSign ⟨negative, whole, fraction, some (down, [])⟩)
      (utf8 (digitsText digits))
      (.number .power ⟨negative, whole, fraction, some (down, digits.reverse)⟩) [] := by
    intro down
    refine h.scans_power _ down fun k hk => ?_
    rw [NumberPhase.next?, (digitChar_spec k hk).2.1]
    rfl
  cases hsign with
  | absent =>
    have hunsigned : ∀ k < 10, ascii (Nat.digitChar k) ≠ ascii '+' ∧
        ascii (Nat.digitChar k) ≠ ascii '-' := by
      decide
    refine h.scans_power _ false fun k hk => ?_
    rw [NumberPhase.next?, if_neg (hunsigned k hk).1, if_neg (hunsigned k hk).2,
      (digitChar_spec k hk).2.1]
    rfl
  | plus => exact .cons rfl (hsigned false)
  | minus => exact .cons rfl (hsigned true)

/-- The exponent of a number. -/
lemma PowerText.scans (h : PowerText cs power)
    (hphase : phase = .zero ∨ phase = .whole ∨ phase = .fraction) :
    ∃ next : NumberPhase, next.canEnd = true ∧
      Scans (.number phase ⟨negative, whole, fraction, none⟩) (utf8 cs)
        (.number next ⟨negative, whole, fraction, power.map fun p => (p.1, p.2.reverse)⟩) [] := by
  cases h with
  | absent =>
    refine ⟨phase, ?_, Scans.nil⟩
    rcases hphase with rfl | rfl | rfl <;> rfl
  | @digits mark sign down digits hmark hsign h =>
    have hstart : (Mode.number phase ⟨negative, whole, fraction, none⟩).step (ascii mark) =
        (.number .mark ⟨negative, whole, fraction, none⟩, []) := by
      rcases hphase with rfl | rfl | rfl <;> rcases hmark with rfl | rfl <;> rfl
    have hmarkText : utf8 [mark] = [ascii mark] := by
      rcases hmark with rfl | rfl <;> rfl
    have hmarked : Scans (.number phase ⟨negative, whole, fraction, none⟩) (utf8 [mark])
        (.number .mark ⟨negative, whole, fraction, none⟩) [] := hmarkText ▸ Scans.step hstart
    refine ⟨.power, rfl, ?_⟩
    rw [← List.singleton_append, utf8_append]
    exact hmarked.append (hsign.scans h)

end

/-- Digits that are turned around twice are in order. -/
lemma NumberText.inOrder_inOrder (n : NumberText) : n.inOrder.inOrder = n := by
  obtain ⟨negative, whole, fraction, power⟩ := n
  cases fraction <;> cases power <;> simp [inOrder]

/-- The scan of a number reaches a phase in which the number can end, with all of its digits. -/
lemma Numeral.scans {cs : List Char} {n : NumberText} (h : Numeral cs n) :
    ∃ phase : NumberPhase, phase.canEnd = true ∧
      Scans .between (utf8 cs) (.number phase n.inOrder) [] := by
  cases h with
  | @intro negative _ _ _ _ _ hwhole hfraction hpower =>
    obtain ⟨phase, hphase, hstart⟩ := hwhole.scans negative
    obtain ⟨next, hnext, hmiddle⟩ := hfraction.scans hphase
    obtain ⟨last, hend, hlast⟩ := hpower.scans hnext
    have hscan := hstart.append (hmiddle.append hlast)
    rw [← utf8_append, ← utf8_append, List.append_assoc] at hscan
    exact ⟨last, hend, hscan⟩

/-- One who passes over a number sees nothing wrong with it; it may be too large. -/
lemma NumberText.flaw_value (n : NumberText) : (Scalar.number n.value).flaw = none := by
  have hfloat : (Scalar.number n.floatValue).flaw = none := by
    unfold floatValue
    dsimp only
    split
    · rfl
    · split
      · rfl
      · split <;> rfl
  unfold value
  dsimp only
  split
  · split <;> split <;> first | rfl | exact hfloat
  · exact hfloat

end TreeCompiler.Json
