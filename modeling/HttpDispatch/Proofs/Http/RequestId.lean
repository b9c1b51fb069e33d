import HttpDispatch.Proofs.Exchange.RequestHead
import HttpDispatch.RequestId
import Mathlib.Algebra.Ring.Nat

/-!
# Request identifiers are read as they were written

An identifier of 128 bits has 26 digits of base 32, so that reading its digits back gives the number
that they were written from (`RequestId.readDigits?_writeDigits`). Digits are visible ASCII
characters; the text of an identifier is therefore the value of a field without any change, and a
request that carries the value has that identifier (`RequestId.inbound?_of_fieldValue`).
-/

namespace HttpDispatch.RequestId

/-- Characters that stand in the value of a field for themselves, and are never trimmed. -/
def IsVisible (c : Char) : Prop := 0x20 < c.toNat ∧ c.toNat < 0x7F

instance : DecidablePred IsVisible := fun _ => inferInstanceAs (Decidable (_ ∧ _))

theorem IsVisible.isBlank {c : Char} (h : IsVisible c) : Text.isBlank c = false := by
  obtain ⟨hlo, hhi⟩ := h
  simp [Text.isBlank]
  omega

theorem digitValue?_digitChar {d : Nat} (h : d < 32) : digitValue? (digitChar d) = some d := by
  have hall : ∀ d : Fin 32, digitValue? (digitChar d) = some d.val := by decide
  exact hall ⟨d, h⟩

theorem isVisible_digitChar {d : Nat} (h : d < 32) : IsVisible (digitChar d) := by
  have hall : ∀ d : Fin 32, IsVisible (digitChar d) := by decide
  exact hall ⟨d, h⟩

theorem readDigits?_append (acc : Nat) (cs ds : List Char) :
    readDigits? acc (cs ++ ds) = (readDigits? acc cs).bind fun n => readDigits? n ds := by
  induction cs generalizing acc with
  | nil => rfl
  | cons c cs ih =>
      rw [List.cons_append, readDigits?, readDigits?]
      cases digitValue? c with
      | none => rfl
      | some d => exact ih _

/-- Reading the digits of a number puts as many of its digits behind those read before. -/
theorem readDigits?_writeDigits (acc n count : Nat) :
    readDigits? acc (writeDigits n count) = some (acc * 32 ^ count + n % 32 ^ count) := by
  induction count generalizing n with
  | zero => simp [writeDigits, readDigits?, Nat.mod_one]
  | succ count ih =>
      have hlast : n % 32 < 32 := Nat.mod_lt _ (by decide)
      have hmod : n % 32 ^ (count + 1) = n / 32 % 32 ^ count * 32 + n % 32 := by
        rw [Nat.pow_succ', Nat.mod_mul, Nat.add_comm, Nat.mul_comm]
      rw [writeDigits, readDigits?_append, ih, Option.bind_some, readDigits?,
        digitValue?_digitChar hlast, Option.bind_some, readDigits?, hmod]
      rw [Nat.pow_succ, ← Nat.mul_assoc]
      congr 1
      omega

theorem length_writeDigits (n count : Nat) : (writeDigits n count).length = count := by
  induction count generalizing n with
  | zero => rfl
  | succ count ih => simp [writeDigits, ih]

theorem isVisible_of_mem_writeDigits {n count : Nat} {c : Char} (h : c ∈ writeDigits n count) :
    IsVisible c := by
  induction count generalizing n with
  | zero => cases h
  | succ count ih =>
      rw [writeDigits, List.mem_append, List.mem_singleton] at h
      obtain h | rfl := h
      · exact ih h
      · exact isVisible_digitChar (Nat.mod_lt _ (by decide))

theorem isVisible_of_mem_text {id : RequestId} {c : Char} (h : c ∈ id.text.toList) :
    IsVisible c := by
  rw [text, String.toList_ofList] at h
  exact isVisible_of_mem_writeDigits h

theorem encode_text (id : RequestId) :
    Text.encode id.text = id.text.toList.map fun c => UInt8.ofNat c.toNat :=
  Text.encode_of_ascii fun _ hc => Nat.lt_trans (isVisible_of_mem_text hc).2 (by decide)

theorem utf8ByteSize_text (id : RequestId) : id.text.utf8ByteSize = 26 := by
  rw [← Text.length_encode, id.encode_text, List.length_map, text, String.toList_ofList,
    length_writeDigits]

theorem ofString_text (id : RequestId) : ofString id.text = .ok id := by
  have hread : readDigits? 0 id.text.toList = some id.value.toNat := by
    have hlt : id.value.toNat < 32 ^ 26 := Nat.lt_trans id.value.isLt (by decide)
    rw [text, String.toList_ofList, readDigits?_writeDigits, Nat.mod_eq_of_lt hlt, Nat.zero_mul,
      Nat.zero_add]
  rw [ofString, if_neg (not_not_intro id.utf8ByteSize_text), hread]
  simp

theorem trim_text (id : RequestId) : Text.trim id.text = id.text :=
  Text.trim_of_forall fun _ hc => (isVisible_of_mem_text hc).isBlank

theorem text?_fieldValue (id : RequestId) : id.fieldValue.text? = some id.text := by
  have hbytes : id.fieldValue.bytes = Text.encode id.text :=
    FieldValue.bytes_ofString_of_visible fun _ => isVisible_of_mem_text
  have hvalue := FieldValue.ofString?_of_bytes hbytes
  exact FieldValue.text?_of_ofString? hvalue fun c hc => (isVisible_of_mem_text hc).2

/-- A request that carries the value of an identifier has that identifier. -/
theorem inbound?_of_fieldValue {h : Headers} {id : RequestId}
    (hv : h.get? .requestId = some id.fieldValue) : inbound? h = some id := by
  rw [inbound?, hv, Option.bind_some, text?_fieldValue]
  simp only
  rw [trim_text, ofString_text]
  rfl

end HttpDispatch.RequestId
