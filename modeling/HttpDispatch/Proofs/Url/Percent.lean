import HttpDispatch.Proofs.Text.Utf8
import HttpDispatch.Url.Percent

/-!
# Reading percent coding back

A text that is written with percent signs consists of unreserved characters and percent signs, so it
can stand between two slashes of a path (`Percent.slash_not_mem_encode`), and it stands for the text
that it was written for (`Percent.standsFor_encode`). What a text stands for is said on bytes: those
that it has when the percent signs are read have to be the encoding of some text, and reading fails
if they are not.
-/

namespace HttpDispatch.Percent

/-!
## Bytes
-/

theorem hexValue?_hexDigit {n : UInt8} (h : n < 16) : hexValue? (hexDigit n) = some n := by
  have hall : ∀ k : Fin 16, hexValue? (hexDigit (.ofNat k)) = some (.ofNat k) := by decide
  have hn := hall ⟨n.toNat, UInt8.lt_iff_toNat_lt.1 h⟩
  rwa [UInt8.ofNat_toNat] at hn

theorem isUnreserved_hexDigit {n : UInt8} (h : n < 16) : isUnreserved (hexDigit n) = true := by
  have hall : ∀ k : Fin 16, isUnreserved (hexDigit (.ofNat k)) = true := by decide
  have hn := hall ⟨n.toNat, UInt8.lt_iff_toNat_lt.1 h⟩
  rwa [UInt8.ofNat_toNat] at hn

theorem div_lt (b : UInt8) : b / 16 < 16 := by
  have := b.toNat_lt
  rw [UInt8.lt_iff_toNat_lt, UInt8.toNat_div]
  show b.toNat / 16 < 16
  omega

theorem mod_lt (b : UInt8) : b % 16 < 16 := by
  rw [UInt8.lt_iff_toNat_lt, UInt8.toNat_mod]
  show b.toNat % 16 < 16
  omega

theorem pair?_hexDigit (b : UInt8) : pair? (hexDigit (b / 16)) (hexDigit (b % 16)) = some b := by
  have hdigits : b / 16 * 16 + b % 16 = b := by
    rw [← UInt8.toNat_inj, UInt8.toNat_add, UInt8.toNat_mul, UInt8.toNat_div, UInt8.toNat_mod]
    have := b.toNat_lt
    show (b.toNat / 16 * 16 % 256 + b.toNat % 16) % 256 = b.toNat
    omega
  rw [pair?, hexValue?_hexDigit (div_lt b), hexValue?_hexDigit (mod_lt b)]
  exact congrArg some hdigits

theorem ne_sign_of_isUnreserved {b : UInt8} (h : isUnreserved b = true) : b ≠ sign := by
  rintro rfl
  cases h

theorem isUnreserved_of_mem_encodeByte {b c : UInt8} (h : c ∈ encodeByte b) :
    c = sign ∨ isUnreserved c = true := by
  unfold encodeByte at h
  split at h
  · next hb =>
    obtain rfl := List.mem_singleton.1 h
    exact .inr hb
  · simp only [List.mem_cons, List.not_mem_nil, or_false] at h
    obtain rfl | rfl | rfl := h
    · exact .inl rfl
    · exact .inr (isUnreserved_hexDigit (div_lt b))
    · exact .inr (isUnreserved_hexDigit (mod_lt b))

theorem decodeBytes_cons_of_ne {b : UInt8} (h : b ≠ sign) (rest : Bytes) :
    decodeBytes (b :: rest) = b :: decodeBytes rest := by
  cases rest with
  | nil => rw [decodeBytes, decodeBytes]
  | cons c rest =>
      cases rest with
      | nil => rw [decodeBytes, decodeBytes]
      | cons d rest => rw [decodeBytes, if_neg h]

theorem decodeBytes_encodeByte_append (b : UInt8) (rest : Bytes) :
    decodeBytes (encodeByte b ++ rest) = b :: decodeBytes rest := by
  unfold encodeByte
  split
  · next hb => exact decodeBytes_cons_of_ne (ne_sign_of_isUnreserved hb) rest
  · rw [List.cons_append, List.cons_append, List.cons_append, List.nil_append, decodeBytes,
      if_pos rfl, pair?_hexDigit]

theorem decodeBytes_encodeBytes (b : Bytes) : decodeBytes (encodeBytes b) = b := by
  unfold encodeBytes
  induction b with
  | nil => rw [List.flatMap_nil, decodeBytes]
  | cons b bs ih => rw [List.flatMap_cons, decodeBytes_encodeByte_append, ih]

theorem decodeBytes_ne_nil {b : Bytes} (h : b ≠ []) : decodeBytes b ≠ [] := by
  fun_cases decodeBytes b
  · exact absurd rfl h
  all_goals exact List.cons_ne_nil _ _

/-!
## Texts
-/

/-- The bytes of `s`, with its percent signs read, are those of `value`. -/
def StandsFor (s value : String) : Prop := decodeBytes (Text.encode s) = Text.encode value

theorem decode?_eq_some_iff {s value : String} : decode? s = some value ↔ StandsFor s value := by
  refine ⟨fun h => (Text.encode_of_decode? h).symm, fun h => ?_⟩
  rw [decode?, h, Text.decode?_encode]

theorem decode?_eq_none_iff {s : String} : decode? s = none ↔ ∀ value, ¬ StandsFor s value := by
  simp only [Option.eq_none_iff_forall_ne_some, ne_eq, decode?_eq_some_iff]

theorem StandsFor.ne_empty {s value : String} (h : StandsFor s value) (hs : s ≠ "") :
    value ≠ "" := by
  rintro rfl
  refine decodeBytes_ne_nil (fun hnil => hs ?_) (h.trans Text.encode_nil)
  exact Text.encode_injective (hnil.trans Text.encode_nil.symm)

theorem mem_encodeBytes {b : Bytes} {c : UInt8} (h : c ∈ encodeBytes b) :
    c = sign ∨ isUnreserved c = true := by
  obtain ⟨_, -, hc⟩ := List.mem_flatMap.1 h
  exact isUnreserved_of_mem_encodeByte hc

theorem bounds_of_mem_encodeBytes {b : Bytes} {c : UInt8} (h : c ∈ encodeBytes b) :
    c.toNat < 128 ∧ c.toNat ≠ '/'.toNat := by
  obtain rfl | h := mem_encodeBytes h
  · decide
  · simp [isUnreserved, UInt8.le_iff_toNat_le, ← UInt8.toNat_inj] at h
    have : '/'.toNat = 47 := rfl
    omega

theorem toNat_ofNat_of_mem_encodeBytes {b : Bytes} {c : UInt8} (h : c ∈ encodeBytes b) :
    (Char.ofNat c.toNat).toNat = c.toNat := by
  have hvalid : c.toNat.isValidChar :=
    .inl (Nat.lt_trans (bounds_of_mem_encodeBytes h).1 (by decide))
  rw [Char.ofNat, dif_pos hvalid]
  rfl

/-- The bytes of a text that is written with percent signs are those that are written for
its bytes. -/
theorem encode_encode (s : String) : Text.encode (encode s) = encodeBytes (Text.encode s) := by
  have hchars : (encode s).toList = (encodeBytes (Text.encode s)).map fun b => Char.ofNat b.toNat :=
    String.toList_ofList
  rw [Text.encode_of_ascii, hchars, List.map_map]
  · refine (List.map_congr_left fun b hb => ?_).trans (List.map_id _)
    rw [Function.comp_apply, toNat_ofNat_of_mem_encodeBytes hb, UInt8.ofNat_toNat]
    rfl
  · intro c hc
    rw [hchars] at hc
    obtain ⟨b, hb, rfl⟩ := List.mem_map.1 hc
    rw [toNat_ofNat_of_mem_encodeBytes hb]
    exact (bounds_of_mem_encodeBytes hb).1

/-- What is written for a text stands for it. -/
theorem standsFor_encode (s : String) : StandsFor (encode s) s := by
  rw [StandsFor, encode_encode, decodeBytes_encodeBytes]

theorem slash_not_mem_encode (s : String) : '/' ∉ (encode s).toList := by
  intro h
  have hmem := Text.ofNat_mem_encode h (by decide)
  rw [encode_encode] at hmem
  exact (bounds_of_mem_encodeBytes hmem).2 rfl

theorem encode_ne_empty {s : String} (h : s ≠ "") : encode s ≠ "" := by
  intro hs
  have := standsFor_encode s
  rw [hs, StandsFor, Text.encode_nil, decodeBytes] at this
  exact h (Text.encode_injective (this.symm.trans Text.encode_nil.symm))

end HttpDispatch.Percent
