import HttpDispatch.Http.Field

/-!
# Tokens

What a token cannot hold: no blank, no separator and nothing but visible ASCII characters. The
spelling of a field name is a token in any mixture of case.
-/

namespace HttpDispatch

theorem bounds_of_isAlphanum {c : Char} (h : c.isAlphanum = true) :
    (65 ≤ c.toNat ∧ c.toNat ≤ 90) ∨ (97 ≤ c.toNat ∧ c.toNat ≤ 122) ∨
      (48 ≤ c.toNat ∧ c.toNat ≤ 57) := by
  have hupper : c.isUpper = decide (65 ≤ c.val ∧ c.val ≤ 90) := rfl
  have hlower : c.isLower = (decide (97 ≤ c.val) && decide (c.val ≤ 122)) := rfl
  have hdigit : c.isDigit = (decide (48 ≤ c.val) && decide (c.val ≤ 57)) := rfl
  have halphanum : c.isAlphanum = (c.isUpper || c.isLower || c.isDigit) := rfl
  rw [halphanum, hupper, hlower, hdigit] at h
  simp only [Bool.or_eq_true, Bool.and_eq_true, decide_eq_true_eq, UInt32.le_iff_toNat_le] at h
  exact or_assoc.1 h

theorem visible_of_isTokenChar {c : Char} (h : isTokenChar c = true) :
    0x20 < c.toNat ∧ c.toNat < 0x7F := by
  rw [isTokenChar, Bool.or_eq_true, List.contains_iff_mem] at h
  obtain h | h := h
  · have := bounds_of_isAlphanum h
    omega
  · have hmarks :
        ("!#$%&'*+-.^_`|~".toList.all fun c => 0x20 < c.toNat ∧ c.toNat < 0x7F) = true := by
      decide +kernel
    exact of_decide_eq_true (List.all_eq_true.1 hmarks c h)

theorem isBlank_of_isTokenChar {c : Char} (h : isTokenChar c = true) : Text.isBlank c = false := by
  have := visible_of_isTokenChar h
  simp only [Text.isBlank, Bool.or_eq_false_iff, Bool.and_eq_false_iff, decide_eq_false_iff_not]
  omega

theorem not_mem_of_isToken {s : String} (h : isToken s = true) {c : Char}
    (hc : isTokenChar c = false) : c ∉ s.toList := by
  intro hmem
  simp only [isToken, Bool.and_eq_true, List.all_eq_true] at h
  rw [h.2 c hmem] at hc
  cases hc

theorem ne_empty_of_isToken {s : String} (h : isToken s = true) : s ≠ "" := by
  rintro rfl
  cases h

theorem isTokenChar_of_toLower {c : Char} (h : isTokenChar c.toLower = true) :
    isTokenChar c = true := by
  by_cases hup : c.isUpper = true
  · have halphanum : c.isAlphanum = (c.isUpper || c.isLower || c.isDigit) := rfl
    rw [isTokenChar, halphanum, hup]
    rfl
  · have hlower : c.toLower = c := dif_neg fun hcase => hup (decide_eq_true hcase)
    rwa [hlower] at h

theorem FieldName.isToken_of_ofString? {s : String} {n : FieldName} (h : ofString? s = some n) :
    isToken s = true := by
  unfold ofString? at h
  split at h
  · next hname =>
    simp only [isFieldName, isToken, Bool.and_eq_true, List.all_eq_true] at hname ⊢
    obtain ⟨⟨⟨hne, htoken⟩, _⟩, _⟩ := hname
    refine ⟨?_, fun c hc => isTokenChar_of_toLower (htoken _ ?_)⟩
    · rw [Bool.not_eq_true', String.isEmpty_eq_false_iff] at hne ⊢
      rintro rfl
      exact hne rfl
    · rw [Text.lower, String.toList_ofList]
      exact List.mem_map_of_mem hc
  · cases h

theorem FieldName.text_of_ofString? {s : String} {n : FieldName} (h : ofString? s = some n) :
    n.text = Text.lower s := by
  unfold ofString? at h
  split at h
  · cases h
    rfl
  · cases h

end HttpDispatch
