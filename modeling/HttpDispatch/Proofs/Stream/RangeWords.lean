import HttpDispatch.Proofs.Stream.Range
import HttpDispatch.Proofs.Stream.RangeSpec

/-!
# Ranges in words

Ranges are read in natural numbers, which have no largest one, and in which subtracting too much
gives zero. Here they are read in words of 64 bits once more, and an operation has a result only if
it stays within them (`Word.sub?`, `Word.succ?`). The two readings agree on every field and every
total, so nothing overflows on the way; and a part that is read can be measured in words, and lies
within the resource (`RangeRequest.readInWords_eq_some`).
-/

namespace HttpDispatch

namespace Word

variable {a b : UInt64}

def sub? (a b : UInt64) : Option UInt64 := if b ≤ a then some (a - b) else none

/-- The difference, or zero in place of what lies below it. -/
def subOrZero (a b : UInt64) : UInt64 := if b ≤ a then a - b else 0

def succ? (a : UInt64) : Option UInt64 := if a.toNat + 1 < UInt64.size then some (a + 1) else none

theorem sub?_of_le (h : b.toNat ≤ a.toNat) :
    ∃ d, sub? a b = some d ∧ d.toNat = a.toNat - b.toNat := by
  have hle : b ≤ a := UInt64.le_iff_toNat_le.2 h
  exact ⟨a - b, if_pos hle, UInt64.toNat_sub_of_le a b hle⟩

theorem toNat_subOrZero (a b : UInt64) : (subOrZero a b).toNat = a.toNat - b.toNat := by
  unfold subOrZero
  split
  · next hle => exact UInt64.toNat_sub_of_le a b hle
  · next hgt =>
    have hlt : a.toNat < b.toNat := Nat.lt_of_not_le fun h => hgt (UInt64.le_iff_toNat_le.2 h)
    rw [UInt64.toNat_zero, Nat.sub_eq_zero_of_le (Nat.le_of_lt hlt)]

theorem succ?_of_lt (h : a.toNat + 1 < UInt64.size) :
    ∃ d, succ? a = some d ∧ d.toNat = a.toNat + 1 := by
  refine ⟨a + 1, if_pos h, ?_⟩
  rw [UInt64.toNat_add, UInt64.toNat_one]
  exact Nat.mod_eq_of_lt h

end Word

namespace ByteRange

def lengthInWords? (first last : UInt64) : Option UInt64 := (Word.sub? last first).bind Word.succ?

theorem lengthInWords?_of_le {first last : UInt64} (hle : first.toNat ≤ last.toNat)
    (hlt : last.toNat + 1 < UInt64.size) :
    ∃ length, lengthInWords? first last = some length ∧
      length.toNat = (ByteRange.mk first.toNat last.toNat).length := by
  obtain ⟨d, hd, hdiff⟩ := Word.sub?_of_le hle
  obtain ⟨length, hlength, hsucc⟩ := Word.succ?_of_lt (a := d) (by omega)
  refine ⟨length, ?_, hsucc.trans (congrArg (· + 1) hdiff)⟩
  rw [lengthInWords?, hd, Option.bind_some, hlength]

end ByteRange

namespace RangeRequest

def ofSuffixInWords (count total : UInt64) : Option RangeRequest :=
  if count = 0 || total = 0 then some unsatisfiable
  else (Word.sub? total 1).map fun last => part ⟨(Word.subOrZero total count).toNat, last.toNat⟩

def ofBoundsInWords (first : UInt64) (last : Option UInt64) (total : UInt64) :
    Option RangeRequest :=
  if last.any (· < first) then some full
  else if total ≤ first then some unsatisfiable
  else (Word.sub? total 1).map fun most => part ⟨first.toNat, (last.elim most (min · most)).toNat⟩

def wordOf? (s : String) : Option UInt64 := (Numeral.word? s).map UInt64.ofNat

def ofSpecInWords (first last : String) (total : UInt64) : Option RangeRequest :=
  if first = "" then
    match wordOf? last with
    | none => some full
    | some count => ofSuffixInWords count total
  else match wordOf? first with
    | none => some full
    | some a =>
      if last = "" then ofBoundsInWords a none total
      else match wordOf? last with
        | none => some full
        | some b => ofBoundsInWords a (some b) total

/-- What a field asks for, if the arithmetic that this takes can be done in words. -/
def readInWords (field : Option String) (total : UInt64) : Option RangeRequest :=
  match field.bind parts? with
  | none => some full
  | some (first, last) => ofSpecInWords first last total

theorem toNat_min (a b : UInt64) : (min a b).toNat = min a.toNat b.toNat := by
  exact apply_ite UInt64.toNat (a ≤ b) a b

theorem wordOf?_of_eq_none {s : String} (h : Numeral.word? s = none) : wordOf? s = none := by
  rw [wordOf?, h, Option.map_none]

theorem exists_wordOf? {s : String} {n : Nat} (h : Numeral.word? s = some n) :
    ∃ w, wordOf? s = some w ∧ w.toNat = n := by
  have hlt : n < UInt64.size := (Numeral.word?_eq_some_iff_isSigned.1 h).2
  refine ⟨UInt64.ofNat n, ?_, UInt64.toNat_ofNat_of_lt hlt⟩
  rw [wordOf?, h, Option.map_some]

variable {total : UInt64}

theorem exists_pred (h : total.toNat ≠ 0) :
    ∃ d, Word.sub? total 1 = some d ∧ d.toNat = total.toNat - 1 :=
  Word.sub?_of_le (Nat.one_le_iff_ne_zero.2 h)

theorem ofSuffixInWords_eq (count total : UInt64) :
    ofSuffixInWords count total = some (ofSuffix count.toNat total.toNat) := by
  unfold ofSuffixInWords ofSuffix
  simp only [← UInt64.toNat_inj, UInt64.toNat_zero]
  split
  · rfl
  · next h =>
    simp only [Bool.or_eq_true, decide_eq_true_eq, not_or] at h
    obtain ⟨d, hd, hpred⟩ := exists_pred h.2
    rw [hd, Option.map_some, Word.toNat_subOrZero, hpred]

theorem ofBoundsInWords_eq (first : UInt64) (last : Option UInt64) (total : UInt64) :
    ofBoundsInWords first last total =
      some (ofBounds first.toNat (last.map UInt64.toNat) total.toNat) := by
  unfold ofBoundsInWords ofBounds
  have hany : (last.map UInt64.toNat).any (· < first.toNat) = last.any (· < first) := by
    cases last <;> rfl
  simp only [hany, UInt64.le_iff_toNat_le]
  split
  · rfl
  · split
    · rfl
    · next hlt =>
      have hne : total.toNat ≠ 0 := by omega
      obtain ⟨d, hd, hpred⟩ := exists_pred hne
      rw [hd, Option.map_some]
      cases last with
      | none => rw [Option.elim_none, hpred, Option.map_none]
      | some b => rw [Option.elim_some, toNat_min, hpred, Option.map_some]

theorem ofSpecInWords_eq (first last : String) (total : UInt64) :
    ofSpecInWords first last total = some (ofSpec first last total.toNat) := by
  unfold ofSpecInWords ofSpec
  split
  · cases hlast : Numeral.word? last with
    | none => rw [wordOf?_of_eq_none hlast]
    | some count =>
        obtain ⟨w, hw, hcount⟩ := exists_wordOf? hlast
        rw [hw]
        dsimp only
        rw [ofSuffixInWords_eq, hcount]
  · cases hfirst : Numeral.word? first with
    | none => rw [wordOf?_of_eq_none hfirst]
    | some a =>
        obtain ⟨w, hw, ha⟩ := exists_wordOf? hfirst
        rw [hw]
        dsimp only
        split
        · rw [ofBoundsInWords_eq, ha, Option.map_none]
        · cases hlast : Numeral.word? last with
          | none => rw [wordOf?_of_eq_none hlast]
          | some b =>
              obtain ⟨v, hv, hb⟩ := exists_wordOf? hlast
              rw [hv]
              dsimp only
              rw [ofBoundsInWords_eq, Option.map_some, ha, hb]

/-- Reading a field in words comes to a result, and to the same one as reading it in numbers. -/
theorem readInWords_eq (field : Option String) (total : UInt64) :
    readInWords field total = some (read field total.toNat) := by
  unfold readInWords
  cases field with
  | none => rfl
  | some text =>
      rw [Option.bind_some, read_some]
      cases parts? text with
      | none => rfl
      | some parts => exact ofSpecInWords_eq parts.1 parts.2 total

/-- Every field can be read in words, and what is read is the same as in numbers. A part that is
read begins and ends within the resource, which is not empty, then; its length is a word, and
neither the length nor the end of the part lies beyond the resource. -/
theorem readInWords_eq_some (field : Option String) (total : UInt64) :
    readInWords field total = some (read field total.toNat) ∧
      ∀ r, read field total.toNat = part r →
        r.first ≤ r.last ∧ r.last < total.toNat ∧
          (∃ first last length : UInt64, r = ⟨first.toNat, last.toNat⟩ ∧
            ByteRange.lengthInWords? first last = some length ∧ length.toNat = r.length) ∧
          1 ≤ r.length ∧ r.length ≤ total.toNat ∧ r.first + r.length ≤ total.toNat ∧ total ≠ 0 := by
  refine ⟨readInWords_eq field total, fun r hr => ?_⟩
  obtain ⟨hle, hlt⟩ := bounds_of_read hr
  obtain ⟨first, last⟩ := r
  dsimp only at hle hlt
  have hsize := total.toNat_lt_size
  have hfirst : (UInt64.ofNat first).toNat = first := UInt64.toNat_ofNat_of_lt (by omega)
  have hlast : (UInt64.ofNat last).toNat = last := UInt64.toNat_ofNat_of_lt (by omega)
  have hbegins : (UInt64.ofNat first).toNat ≤ (UInt64.ofNat last).toNat := by rwa [hfirst, hlast]
  have hends : (UInt64.ofNat last).toNat + 1 < UInt64.size := by omega
  obtain ⟨length, hwords, hlength⟩ := ByteRange.lengthInWords?_of_le hbegins hends
  rw [hfirst, hlast] at hlength
  have hne : total ≠ 0 := by
    rintro rfl
    exact absurd hlt (Nat.not_lt_zero last)
  refine ⟨hle, hlt, ⟨.ofNat first, .ofNat last, length, by rw [hfirst, hlast], hwords, hlength⟩, ?_⟩
  unfold ByteRange.length
  dsimp only
  exact ⟨by omega, by omega, by omega, hne⟩

/-- The largest total there is, of which all is asked for, with an end far behind it. -/
theorem readInWords_eq_some_largest :
    read (some "bytes=0-18446744073709551615") (18446744073709551615 : UInt64).toNat =
        part ⟨0, 18446744073709551614⟩ ∧
      ByteRange.length ⟨0, 18446744073709551614⟩ ≤ (18446744073709551615 : UInt64).toNat ∧
      readInWords (some "bytes=0-18446744073709551615") 18446744073709551615 =
        some (part ⟨0, 18446744073709551614⟩) := by
  have hread : read (some "bytes=0-18446744073709551615") (18446744073709551615 : UInt64).toNat =
      part ⟨0, 18446744073709551614⟩ := by decide +kernel
  obtain ⟨hwords, hpart⟩ :=
    readInWords_eq_some (some "bytes=0-18446744073709551615") 18446744073709551615
  obtain ⟨-, -, -, -, hle, -⟩ := hpart _ hread
  exact ⟨hread, hle, hwords.trans (congrArg some hread)⟩

end RangeRequest

end HttpDispatch
