import HttpDispatch.Http.Headers
import HttpDispatch.Proofs.Http.Token
import HttpDispatch.Proofs.Text.Basic
import HttpDispatch.Proofs.Text.Numeral
import HttpDispatch.Proofs.Text.Utf8

/-!
# The values of fields as texts and as numbers

A value consists of the bytes of the text that it was written as, and is read as that text if it is
ASCII. Its number, where it is one, can be seen from the bytes: `FieldValue.Denotes` is said of a
decimal numeral with at most one plus sign before it, and a value that has been trimmed is read as a
number just in that case (`FieldValue.word?_text?_eq_some_iff`).
-/

namespace HttpDispatch

namespace FieldValue

theorem not_mem_of_ofString? {s : String} {v : FieldValue} (h : ofString? s = some v) {c : Char}
    (hc : c.toNat < 128) (hbyte : isValueByte (UInt8.ofNat c.toNat) = false) : c ∉ s.toList := by
  intro hmem
  unfold ofString? ofBytes? at h
  split at h
  · next hall =>
    rw [List.all_eq_true.1 hall _ (Text.ofNat_mem_encode hmem hc)] at hbyte
    cases hbyte
  · cases h

theorem bytes_of_ofString? {s : String} {v : FieldValue} (h : ofString? s = some v) :
    v.bytes = Text.encode s := by
  unfold ofString? ofBytes? at h
  split at h
  · cases h
    rfl
  · cases h

theorem ofString?_of_bytes {s : String} {v : FieldValue} (h : v.bytes = Text.encode s) :
    ofString? s = some v := by
  obtain ⟨b, hlegal⟩ := v
  subst h
  exact dif_pos hlegal

theorem isValueByte_of_visible {c : Char} (hlo : 0x20 < c.toNat) (hhi : c.toNat < 0x7F) :
    isValueByte (UInt8.ofNat c.toNat) = true := by
  have hbyte : (UInt8.ofNat c.toNat).toNat = c.toNat := by
    rw [UInt8.toNat_ofNat']
    omega
  simp [isValueByte, UInt8.le_iff_toNat_le, ← UInt8.toNat_inj, hbyte]
  omega

theorem bytes_ofString_of_visible {s : String}
    (h : ∀ c ∈ s.toList, 0x20 < c.toNat ∧ c.toNat < 0x7F) : (ofString s).bytes = Text.encode s := by
  have hbytes := Text.encode_of_ascii fun c hc => Nat.lt_trans (h c hc).2 (by decide : 0x7F < 128)
  refine List.filter_eq_self.2 fun b hb => ?_
  rw [hbytes] at hb
  obtain ⟨c, hc, rfl⟩ := List.mem_map.1 hb
  exact isValueByte_of_visible (h c hc).1 (h c hc).2

theorem text?_of_ofString? {s : String} {v : FieldValue} (h : ofString? s = some v)
    (hs : ∀ c ∈ s.toList, c.toNat < 0x7F) : v.text? = some s := by
  have hbytes : v.bytes = s.toList.map fun c => UInt8.ofNat c.toNat := by
    rw [bytes_of_ofString? h, Text.encode_of_ascii fun c hc => Nat.lt_trans (hs c hc) (by decide)]
  have hback : ∀ c ∈ s.toList, (UInt8.ofNat c.toNat).toNat = c.toNat := by
    intro c hc
    have := hs c hc
    rw [UInt8.toNat_ofNat']
    omega
  rw [text?, hbytes, if_pos, List.map_map]
  · have hchars :
        s.toList.map ((fun b : UInt8 => Char.ofNat b.toNat) ∘ fun c => UInt8.ofNat c.toNat) =
        s.toList := by
      refine (List.map_congr_left fun c hc => ?_).trans (List.map_id _)
      rw [Function.comp_apply, hback c hc, Char.ofNat_toNat]
      rfl
    rw [hchars, String.ofList_toList]
  · rw [List.all_map, List.all_eq_true]
    intro c hc
    rw [Function.comp_apply, decide_eq_true_eq, UInt8.lt_iff_toNat_lt, hback c hc]
    exact hs c hc

/-- The value consists of digits only, and they stand for `n`. -/
def IsDecimal (v : FieldValue) (n : Nat) : Prop :=
  ∃ cs, v.bytes = Text.encode (String.ofList cs) ∧ Numeral.IsDecimal cs n

/-- The value consists of digits that stand for `n`, with one plus sign before them or none. -/
def Denotes (v : FieldValue) (n : Nat) : Prop :=
  ∃ cs, (v.bytes = Text.encode (String.ofList cs) ∨
    v.bytes = Text.encode (String.ofList ('+' :: cs))) ∧
    Numeral.IsDecimal cs n

def IsTrimmed (v : FieldValue) : Prop := ∃ s, v.bytes = Text.encode (Text.trim s)

variable {v : FieldValue} {n m : Nat}

theorem Denotes.unique (hn : v.Denotes n) (hm : v.Denotes m) : n = m := by
  obtain ⟨cs, hcs, hn⟩ := hn
  obtain ⟨ds, hds, hm⟩ := hm
  have hsame : cs = ds := by
    obtain hcs | hcs := hcs
    all_goals obtain hds | hds := hds
    all_goals
      have hlists := congrArg String.toList (Text.encode_injective (hcs.symm.trans hds))
      rw [String.toList_ofList, String.toList_ofList] at hlists
    · exact hlists
    · exact absurd (hn.isDigit '+' (hlists ▸ List.mem_cons_self)) (by decide)
    · exact absurd (hm.isDigit '+' (hlists ▸ List.mem_cons_self)) (by decide)
    · exact (List.cons.inj hlists).2
  rw [← hn.value_eq, ← hm.value_eq, hsame]

theorem IsDecimal.denotes (h : v.IsDecimal n) : v.Denotes n := by
  obtain ⟨cs, hcs, hn⟩ := h
  exact ⟨cs, .inl hcs, hn⟩

theorem lt_of_text?_eq_some {s t : String} (h : v.bytes = Text.encode s) (ht : v.text? = some t) :
    ∀ c ∈ s.toList, c.toNat < 0x7F := by
  unfold text? at ht
  split at ht
  · next hall =>
    have hbyte : ∀ b ∈ Text.encode s, b.toNat < 0x7F := by
      intro b hb
      have hlt := of_decide_eq_true (List.all_eq_true.1 hall b (h ▸ hb))
      exact UInt8.lt_iff_toNat_lt.1 hlt
    intro c hc
    by_cases hlt : c.toNat < 128
    · have hb := hbyte _ (Text.ofNat_mem_encode hc hlt)
      rwa [UInt8.toNat_ofNat', Nat.mod_eq_of_lt (by omega)] at hb
    · obtain ⟨b, hb⟩ := List.exists_mem_of_ne_nil _ (String.utf8EncodeChar_ne_nil (c := c))
      have hle := Text.le_of_mem_utf8EncodeChar (Nat.le_of_not_lt hlt) hb
      have := hbyte b (List.mem_flatMap.2 ⟨c, hc, hb⟩)
      omega
  · cases ht

theorem visible_of_isDecimal {cs : List Char} (h : Numeral.IsDecimal cs n) :
    ∀ c ∈ '+' :: cs, 0x20 < c.toNat ∧ c.toNat < 0x7F := by
  intro c hc
  obtain rfl | hc := List.mem_cons.1 hc
  · decide
  · have htoken : isTokenChar c = true := by simp [isTokenChar, Char.isAlphanum, h.isDigit c hc]
    exact visible_of_isTokenChar htoken

theorem isDecimal_ofNat (n : Nat) : (ofNat n).IsDecimal n := by
  have hdecimal := Numeral.isDecimal_toDigits n
  have hwritten : toString n = String.ofList (Nat.toDigits 10 n) := rfl
  rw [ofNat, hwritten]
  refine ⟨Nat.toDigits 10 n, bytes_ofString_of_visible fun c hc => ?_, hdecimal⟩
  rw [String.toList_ofList] at hc
  exact visible_of_isDecimal hdecimal c (List.mem_cons_of_mem _ hc)

/-- A value that has been trimmed is read as a number of 64 bits if it denotes one. -/
theorem word?_text?_eq_some_iff (hv : v.IsTrimmed) :
    (v.text?.bind fun s => Numeral.word? (Text.trim s)) = some n ↔
      v.Denotes n ∧ n < UInt64.size := by
  obtain ⟨s, hbytes⟩ := hv
  have hs := ofString?_of_bytes hbytes
  constructor
  · intro h
    obtain ⟨t, ht, hword⟩ := Option.bind_eq_some_iff.1 h
    have hascii := text?_of_ofString? hs (lt_of_text?_eq_some hbytes ht)
    obtain rfl : Text.trim s = t := Option.some_inj.1 (hascii.symm.trans ht)
    rw [Text.trim_trim] at hword
    obtain ⟨⟨cs, hcs, hdecimal⟩, hlt⟩ := Numeral.word?_eq_some_iff.1 hword
    refine ⟨⟨cs, ?_, hdecimal⟩, hlt⟩
    rw [hbytes]
    refine hcs.imp (fun h => ?_) fun h => ?_
    all_goals rw [← h, String.ofList_toList]
  · rintro ⟨⟨cs, hcs, hdecimal⟩, hlt⟩
    rw [hbytes] at hcs
    have hlist : (Text.trim s).toList = cs ∨ (Text.trim s).toList = '+' :: cs := by
      refine hcs.imp (fun h => ?_) fun h => ?_
      all_goals rw [Text.encode_injective h, String.toList_ofList]
    have hascii : ∀ c ∈ (Text.trim s).toList, c.toNat < 0x7F := by
      intro c hc
      refine (visible_of_isDecimal hdecimal c ?_).2
      obtain hlist | hlist := hlist
      · exact List.mem_cons_of_mem _ (hlist ▸ hc)
      · exact hlist ▸ hc
    rw [text?_of_ofString? hs hascii, Option.bind_some, Text.trim_trim]
    exact Numeral.word?_eq_some_iff.2 ⟨⟨cs, hlist, hdecimal⟩, hlt⟩

end FieldValue

end HttpDispatch
