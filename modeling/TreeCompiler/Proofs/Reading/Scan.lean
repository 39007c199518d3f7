import Mathlib.Tactic.Lemma
import TreeCompiler.Json.Token

/-!
# Scanning bytes

`Scans` says where the scan of a JSON text goes with some bytes and which tokens it completes on the
way; scans follow each other as their bytes do.  The bytes are those of characters (`utf8`), of which
a text is made and as which it is read again.
-/

namespace TreeCompiler.Json

/-! ### Bytes -/

/-- The bytes of characters. -/
def utf8 (cs : List Char) : List UInt8 := cs.flatMap String.utf8EncodeChar

/-- Characters have their bytes one after the other. -/
lemma utf8_append {cs cs' : List Char} : utf8 (cs ++ cs') = utf8 cs ++ utf8 cs' :=
  List.flatMap_append

/-- The first character has the first bytes. -/
lemma utf8_cons {c : Char} {cs : List Char} : utf8 (c :: cs) = String.utf8EncodeChar c ++ utf8 cs :=
  List.flatMap_cons

/-- A byte array holds the bytes of its list. -/
lemma toList_eq_data (bytes : ByteArray) : bytes.toList = bytes.data.toList := by
  have hloop : ∀ (n i : Nat) (r : List UInt8), bytes.size - i = n →
      ByteArray.toList.loop bytes i r = r.reverse ++ bytes.data.toList.drop i := by
    intro n
    induction n with
    | zero =>
      intro i r hn
      have hlength : bytes.data.toList.length ≤ i := Nat.le_of_sub_eq_zero hn
      rw [ByteArray.toList.loop, if_neg (by omega), List.drop_of_length_le hlength, List.append_nil]
    | succ n ih =>
      intro i r hn
      have hlength : i < bytes.data.toList.length := by
        have hsize : bytes.data.toList.length = bytes.size := rfl
        omega
      have hget : bytes.get! i = bytes.data.toList[i] := by
        unfold ByteArray.get!
        rw [Array.getElem_toList]
        exact getElem!_pos bytes.data i hlength
      rw [ByteArray.toList.loop, if_pos (by omega), ih _ _ (by omega),
        List.drop_eq_getElem_cons hlength, List.reverse_cons, List.append_assoc, hget]
      rfl
  exact hloop _ 0 [] rfl

/-- The bytes of a text are those of its characters. -/
lemma toList_toUTF8_ofList (cs : List Char) : (String.ofList cs).toUTF8.toList = utf8 cs := by
  rw [toList_eq_data, String.toUTF8_eq_toByteArray, String.toByteArray_ofList]
  unfold List.utf8Encode utf8
  simp

/-- The bytes of a text are read as the text. -/
lemma fromUTF8?_utf8 (s : String) : String.fromUTF8? ⟨(utf8 s.toList).toArray⟩ = some s := by
  have hbytes : (⟨(utf8 s.toList).toArray⟩ : ByteArray) = s.toByteArray := by
    have hlist : s.toByteArray = s.toList.utf8Encode := by
      rw [← String.toByteArray_ofList, String.ofList_toList]
    rw [hlist]
    unfold List.utf8Encode utf8
    refine ByteArray.ext ?_
    simp
  rw [hbytes]
  unfold String.fromUTF8?
  rw [dif_pos s.isValidUTF8]
  rfl

/-! ### Scans -/

/-- The scan of some bytes goes from a mode to a mode and completes some tokens. -/
def Scans (m : Mode) (bytes : List UInt8) (m' : Mode) (new : List Token) : Prop :=
  ∀ done, scanFrom (m, done) bytes = (m', new.reverse ++ done)

namespace Scans

variable {m m' m'' : Mode} {bytes bytes' : List UInt8} {b : UInt8} {new new' : List Token}

/-- Without bytes the scan stays where it is. -/
lemma nil : Scans m [] m [] := fun _ => rfl

/-- A single byte. -/
lemma step (h : m.step b = (m', new)) : Scans m [b] m' new := by
  intro done
  change ((m.step b).1, (m.step b).2.reverse ++ done) = _
  rw [h]

/-- A scan goes on where the scan before it ended. -/
lemma append (h : Scans m bytes m' new) (h' : Scans m' bytes' m'' new') :
    Scans m (bytes ++ bytes') m'' (new ++ new') := by
  intro done
  have hsplit : scanFrom (m, done) (bytes ++ bytes') = scanFrom (scanFrom (m, done) bytes) bytes' :=
    List.foldl_append
  rw [hsplit, h done, h' (new.reverse ++ done), List.reverse_append, List.append_assoc]

/-- A first byte that completes nothing. -/
lemma cons (h : m.step b = (m', [])) (h' : Scans m' bytes m'' new) : Scans m (b :: bytes) m'' new :=
  (step h).append h'

end Scans

end TreeCompiler.Json
