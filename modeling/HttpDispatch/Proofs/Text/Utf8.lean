import HttpDispatch.Text.Utf8
import Mathlib.Data.List.Basic

/-!
# Bytes of ASCII characters

A byte below `0x80` in the encoding of a text stands for a character of its own
(`Text.mem_of_mem_encode`). So the bytes at which a connection is cut into lines are the ends of
lines of the text, and no byte of another character is mistaken for one.
-/

namespace HttpDispatch.Text

theorem utf8EncodeChar_of_lt {c : Char} (h : c.toNat < 128) :
    String.utf8EncodeChar c = [UInt8.ofNat c.toNat] := by
  unfold String.utf8EncodeChar
  exact if_pos (Nat.le_of_lt_succ h)

/-- No byte of another character could be that of an ASCII character. -/
theorem le_of_mem_utf8EncodeChar {c : Char} (hc : 128 ≤ c.toNat) {b : UInt8}
    (h : b ∈ String.utf8EncodeChar c) : 128 ≤ b.toNat := by
  have hval : c.val.toNat = c.toNat := rfl
  unfold String.utf8EncodeChar at h
  simp only at h
  repeat' split at h
  all_goals simp only [List.mem_cons, List.not_mem_nil, or_false] at h
  · omega
  · obtain rfl | rfl := h
    all_goals rw [UInt8.toNat_ofNat']; omega
  · obtain rfl | rfl | rfl := h
    all_goals rw [UInt8.toNat_ofNat']; omega
  · obtain rfl | rfl | rfl | rfl := h
    all_goals rw [UInt8.toNat_ofNat']; omega

theorem eq_of_mem_utf8EncodeChar {c : Char} {b : UInt8} (h : b ∈ String.utf8EncodeChar c)
    (hb : b.toNat < 128) : c = Char.ofNat b.toNat := by
  by_cases hc : c.toNat < 128
  · rw [utf8EncodeChar_of_lt hc, List.mem_singleton] at h
    rw [h, UInt8.toNat_ofNat', Nat.mod_eq_of_lt (by omega), Char.ofNat_toNat]
  · have := le_of_mem_utf8EncodeChar (Nat.le_of_not_lt hc) h
    omega

/-- A byte of an ASCII character is there for that character. -/
theorem mem_of_mem_encode {s : String} {b : UInt8} (h : b ∈ encode s) (hb : b.toNat < 128) :
    Char.ofNat b.toNat ∈ s.toList := by
  obtain ⟨c, hc, hmem⟩ := List.mem_flatMap.1 h
  exact eq_of_mem_utf8EncodeChar hmem hb ▸ hc

theorem ofNat_mem_encode {s : String} {c : Char} (h : c ∈ s.toList) (hc : c.toNat < 128) :
    UInt8.ofNat c.toNat ∈ encode s :=
  List.mem_flatMap.2 ⟨c, h, utf8EncodeChar_of_lt hc ▸ List.mem_singleton_self _⟩

/-- If the last byte is that of an ASCII character, this is the last character. -/
theorem getLast?_of_getLast?_encode {s : String} {b : UInt8} (h : (encode s).getLast? = some b)
    (hb : b.toNat < 128) : s.toList.getLast? = some (Char.ofNat b.toNat) := by
  obtain hnil | ⟨cs, c, hcs⟩ := s.toList.eq_nil_or_concat'
  · rw [encode, hnil] at h
    cases h
  · rw [encode, hcs, List.flatMap_append, List.flatMap_singleton,
      List.getLast?_append_of_ne_nil _ String.utf8EncodeChar_ne_nil] at h
    rw [hcs, List.getLast?_concat, eq_of_mem_utf8EncodeChar (List.mem_of_getLast? h) hb]

theorem getLast?_encode {s : String} {c : Char} (h : s.toList.getLast? = some c)
    (hc : c.toNat < 128) : (encode s).getLast? = some (UInt8.ofNat c.toNat) := by
  obtain ⟨cs, hcs⟩ := List.getLast?_eq_some_iff.1 h
  rw [encode, hcs, List.flatMap_append, List.flatMap_singleton, utf8EncodeChar_of_lt hc,
    List.getLast?_concat]

theorem encode_of_decode? {b : Bytes} {s : String} (h : decode? b = some s) : encode s = b := by
  have hbytes : (encode s).toByteArray = b.toByteArray := by
    rw [toByteArray_encode]
    unfold decode? String.fromUTF8? at h
    split at h
    · cases h
      rfl
    · cases h
  exact List.toByteArray_inj.1 hbytes

theorem encode_append (s t : String) : encode (s ++ t) = encode s ++ encode t := by
  rw [encode, encode, encode, String.toList_append, List.flatMap_append]

theorem length_encode (s : String) : (encode s).length = s.utf8ByteSize := by
  rw [← String.size_toByteArray, ← toByteArray_encode, List.size_toByteArray]

theorem encode_injective {s t : String} (h : encode s = encode t) : s = t := by
  rw [← Option.some_inj, ← decode?_encode s, h, decode?_encode]

theorem encode_of_ascii {s : String} (h : ∀ c ∈ s.toList, c.toNat < 128) :
    encode s = s.toList.map fun c => UInt8.ofNat c.toNat := by
  rw [encode, List.map_eq_flatMap]
  exact List.flatMap_congr fun c hc => utf8EncodeChar_of_lt (h c hc)

end HttpDispatch.Text
