import HttpDispatch.Text.Numeral

/-!
# Decimal numerals

A text of decimal digits is read as the number that it stands for, and the numeral of a number is
read as that number again.
-/

namespace HttpDispatch.Numeral

theorem digitIn?_of_isDigit {c : Char} (h : c.isDigit = true) :
    digitIn? 10 c = some (c.toNat - '0'.toNat) := by
  have hlt : c.toNat - '0'.toNat < 10 := by
    have hle : c.val ≤ '9'.val := by
      simp only [Char.isDigit, Bool.and_eq_true, decide_eq_true_eq] at h
      exact h.2
    have : c.toNat ≤ 57 := UInt32.le_iff_toNat_le.1 hle
    have hzero : '0'.toNat = 48 := rfl
    omega
  rw [digitIn?, digit?, if_pos h, Option.filter_some, if_pos (decide_eq_true hlt)]

theorem digits?_of_isDigit {cs : List Char} (h : ∀ c ∈ cs, c.isDigit = true) (acc : Nat) :
    digits? 10 acc cs = some (Nat.ofDigitChars 10 cs acc) := by
  induction cs generalizing acc with
  | nil => rfl
  | cons c cs ih =>
      obtain ⟨hc, hcs⟩ := List.forall_mem_cons.1 h
      rw [digits?, digitIn?_of_isDigit hc, Option.bind_some, ih hcs, Nat.ofDigitChars_cons,
        Nat.mul_comm]

theorem read?_of_isDigit {cs : List Char} (hne : cs ≠ []) (h : ∀ c ∈ cs, c.isDigit = true) :
    read? 10 cs = some (Nat.ofDigitChars 10 cs 0) := by
  rw [read?, if_neg (by simpa using hne), digits?_of_isDigit h]

/-- A decimal numeral of `n`: one digit or more, and nothing else. -/
structure IsDecimal (cs : List Char) (n : Nat) : Prop where
  ne_nil : cs ≠ []
  isDigit : ∀ c ∈ cs, c.isDigit = true
  value_eq : Nat.ofDigitChars 10 cs 0 = n

theorem isDigit_of_digitIn? {c : Char} {d : Nat} (h : digitIn? 10 c = some d) :
    c.isDigit = true := by
  unfold digitIn? digit? at h
  split at h
  · next hdigit => exact hdigit
  · -- a letter stands for ten or more
    obtain ⟨hletter, hlt⟩ := Option.filter_eq_some_iff.1 h
    have hlt' : d < 10 := of_decide_eq_true hlt
    split at hletter
    · cases hletter
      omega
    · split at hletter
      · cases hletter
        omega
      · cases hletter

theorem isDigit_of_digits? {cs : List Char} {acc n : Nat} (h : digits? 10 acc cs = some n) :
    ∀ c ∈ cs, c.isDigit = true := by
  induction cs generalizing acc with
  | nil => simp
  | cons c cs ih =>
      obtain ⟨d, hd, hrest⟩ := Option.bind_eq_some_iff.1 h
      exact List.forall_mem_cons.2 ⟨isDigit_of_digitIn? hd, ih hrest⟩

theorem read?_eq_some_iff {cs : List Char} {n : Nat} : read? 10 cs = some n ↔ IsDecimal cs n := by
  refine ⟨fun h => ?_, fun h => by rw [read?_of_isDigit h.ne_nil h.isDigit, h.value_eq]⟩
  unfold read? at h
  split at h
  · cases h
  · next hne =>
    have hdigits := isDigit_of_digits? h
    rw [digits?_of_isDigit hdigits] at h
    exact ⟨by simpa using hne, hdigits, Option.some_inj.1 h⟩

/-- A word is read from a decimal numeral, before which there may be one plus sign. -/
theorem word?_eq_some_iff {s : String} {n : Nat} :
    word? s = some n ↔
      (∃ cs, (s.toList = cs ∨ s.toList = '+' :: cs) ∧ IsDecimal cs n) ∧ n < UInt64.size := by
  unfold word? readBounded?
  dsimp only
  rw [Option.filter_eq_some_iff, decide_eq_true_eq, and_congr_left_iff]
  intro _
  split
  · next cs hcs =>
    rw [read?_eq_some_iff]
    refine ⟨fun h => ⟨cs, .inr hcs, h⟩, ?_⟩
    rintro ⟨ds, hds | hds, h⟩
    · exact absurd (h.isDigit '+' (hds ▸ hcs ▸ List.mem_cons_self)) (by decide)
    · rw [hcs, List.cons.injEq] at hds
      exact hds.2 ▸ h
  · next hsign =>
    rw [read?_eq_some_iff]
    refine ⟨fun h => ⟨_, .inl rfl, h⟩, ?_⟩
    rintro ⟨ds, hds | hds, h⟩
    · exact hds ▸ h
    · exact absurd hds (hsign ds)

def IsSigned (cs : List Char) (n : Nat) : Prop :=
  IsDecimal cs n ∨ ∃ ds, cs = '+' :: ds ∧ IsDecimal ds n

variable {cs : List Char} {n m : Nat}

theorem IsDecimal.isSigned (h : IsDecimal cs n) : IsSigned cs n := .inl h

theorem IsSigned.ne_nil (h : IsSigned cs n) : cs ≠ [] := by
  obtain h | ⟨ds, rfl, -⟩ := h
  · exact h.ne_nil
  · exact List.cons_ne_nil _ _

theorem IsSigned.isDigit_or (h : IsSigned cs n) : ∀ c ∈ cs, c.isDigit = true ∨ c = '+' := by
  intro c hc
  obtain h | ⟨ds, rfl, h⟩ := h
  · exact .inl (h.isDigit c hc)
  · obtain rfl | hc := List.mem_cons.1 hc
    · exact .inr rfl
    · exact .inl (h.isDigit c hc)

theorem IsSigned.unique (hn : IsSigned cs n) (hm : IsSigned cs m) : n = m := by
  obtain hn | ⟨ds, rfl, hn⟩ := hn
  · obtain hm | ⟨ds, rfl, -⟩ := hm
    · exact hn.value_eq.symm.trans hm.value_eq
    · exact absurd (hn.isDigit '+' List.mem_cons_self) (by decide)
  · obtain hm | ⟨es, hes, hm⟩ := hm
    · exact absurd (hm.isDigit '+' List.mem_cons_self) (by decide)
    · obtain ⟨-, rfl⟩ := List.cons.inj hes
      exact hn.value_eq.symm.trans hm.value_eq

theorem word?_eq_some_iff_isSigned {s : String} :
    word? s = some n ↔ IsSigned s.toList n ∧ n < UInt64.size := by
  rw [word?_eq_some_iff, and_congr_left_iff]
  intro _
  constructor
  · rintro ⟨cs, hcs | hcs, h⟩
    · exact .inl (hcs ▸ h)
    · exact .inr ⟨cs, hcs, h⟩
  · rintro (h | ⟨ds, hds, h⟩)
    · exact ⟨_, .inl rfl, h⟩
    · exact ⟨ds, .inr hds, h⟩

theorem word?_of_isDigit {s : String} (hne : s ≠ "") (h : ∀ c ∈ s.toList, c.isDigit = true)
    (hlt : Nat.ofDigitChars 10 s.toList 0 < UInt64.size) :
    word? s = some (Nat.ofDigitChars 10 s.toList 0) :=
  word?_eq_some_iff.2 ⟨⟨s.toList, .inl rfl, by simpa using hne, h, rfl⟩, hlt⟩

theorem isDecimal_toDigits (n : Nat) : IsDecimal (Nat.toDigits 10 n) n where
  ne_nil := Nat.toDigits_ne_nil
  isDigit _ hc := Nat.isDigit_of_mem_toDigits (by decide) (by decide) hc
  value_eq := Nat.ofDigitChars_ten_toDigits

theorem read?_toDigits (n : Nat) : read? 10 (Nat.toDigits 10 n) = some n :=
  read?_eq_some_iff.2 (isDecimal_toDigits n)

end HttpDispatch.Numeral
