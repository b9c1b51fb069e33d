import HttpDispatch.Proofs.Decimal.Value
import Mathlib.Tactic.Push

/-!
# The quotient of one and a floating-point number

A quotient of floating-point numbers is the whole quotient of their mantissas, with a mark for what
is left, rounded to the nearest mantissa. For one divided by a number of the half-open interval from
zero to one this gives the inverse up to one half of the last place (`Decimal.parts_one_div`).
-/

namespace HttpDispatch.Decimal

open Float.Model
open Float.Model.UnpackedFloat

/-!
## Rounding
-/

section Rounding

theorem roundedMantissa_ofMantissaAndAccuracy (m : ℕ) (a : Accuracy) :
    (ExtendedMantissa.ofMantissaAndAccuracy m a).roundedMantissa = a.roundToNearestEven m := by
  cases a with
  | exact => rfl
  | inexact o => cases o <;> rfl

theorem le_roundToNearestEven (m : ℕ) (a : Accuracy) : m ≤ a.roundToNearestEven m := by
  cases a with
  | exact => exact le_rfl
  | inexact o => cases o <;> simp [Accuracy.roundToNearestEven]

theorem two_mul_roundToNearestEven (n : ℕ) {d : ℕ} (hd : 0 < d) :
    2 * ((accuracyOfFraction (n % d) d).roundToNearestEven (n / d) * d) ≤ 2 * n + d ∧
      2 * n ≤ 2 * ((accuracyOfFraction (n % d) d).roundToNearestEven (n / d) * d) + d := by
  have hdiv := Nat.div_add_mod' n d
  have hmod := Nat.mod_lt n hd
  have hsucc : (n / d + 1) * d = n / d * d + d := Nat.succ_mul _ _
  unfold accuracyOfFraction
  split
  · simp only [Accuracy.roundToNearestEven]
    omega
  · rcases lt_trichotomy (2 * (n % d)) d with hlt | heq | hgt
    · rw [compare_lt_iff_lt.mpr hlt]
      simp only [Accuracy.roundToNearestEven]
      omega
    · rw [compare_eq_iff_eq.mpr heq]
      simp only [Accuracy.roundToNearestEven]
      obtain hbit | hbit := Nat.mod_two_eq_zero_or_one (n / d) <;> rw [hbit]
      · rw [add_zero]
        omega
      · omega
    · rw [compare_gt_iff_gt.mpr hgt]
      simp only [Accuracy.roundToNearestEven]
      omega

theorem targetExponent_eq (t : ℤ) : Format.binary64.targetExponent t = max (t - 53) (-1074) := rfl

variable {m : ℕ} {e : ℤ}

theorem shiftToTargetExponent_of_log2 (hm : m.log2 = 52) (he : -1074 ≤ e) (a : Accuracy) :
    shiftToTargetExponent Format.binary64 m e a = (.ofMantissaAndAccuracy m a, e) := by
  have htarget : Format.binary64.targetExponent (totalExponent m e) = e := by
    rw [targetExponent_eq, totalExponent, hm]
    norm_num
    omega
  simp only [shiftToTargetExponent, shiftToExponent, htarget, sub_self, Int.toNat_zero,
    Int.natCast_zero, add_zero]
  rfl

theorem shiftToTargetExponent_two_pow (he : -1074 ≤ e) :
    shiftToTargetExponent Format.binary64 (2 ^ 53) e .exact = (⟨2 ^ 52, false, false⟩, e + 1) := by
  have htarget : Format.binary64.targetExponent (totalExponent (2 ^ 53) e) - e = 1 := by
    rw [targetExponent_eq, totalExponent, Nat.log2_two_pow]
    norm_num
    omega
  simp only [shiftToTargetExponent, shiftToExponent, htarget]
  rfl

theorem log2_eq_of_bounds (hle : 2 ^ 52 ≤ m) (hlt : m < 2 ^ 53) : m.log2 = 52 :=
  (Nat.log2_eq_iff (by omega)).mpr ⟨hle, hlt⟩

/-- A number is rounded by bringing it to its exponent, rounding its mantissa and bringing that to
its exponent again. -/
theorem roundWithAccuracy_eq_finite {s : Sign} {a : Accuracy} {em : ExtendedMantissa} {m' : ℕ}
    {e₁ e₂ : ℤ} (hfirst : shiftToTargetExponent Format.binary64 m e a = (em, e₁))
    (hsecond : shiftToTargetExponent Format.binary64 em.roundedMantissa e₁ .exact =
      (⟨m', false, false⟩, e₂))
    (hpos : 0 < m') : roundWithAccuracy Format.binary64 s m e a = .finite s m' e₂ hpos := by
  rw [roundWithAccuracy, hfirst]
  dsimp only
  rw [hsecond]
  exact dif_neg hpos.ne'

/-- A mantissa of 53 bits, or the least of 54 bits without anything left, is rounded to one of 53
bits, and a carry goes into the exponent. -/
theorem exists_roundWithAccuracy_eq_finite (s : Sign) {a : Accuracy} {n : ℕ}
    (hn : a.roundToNearestEven m = n) (hle : 2 ^ 52 ≤ m) (hmn : m ≤ n) (hnle : n ≤ 2 ^ 53)
    (hcarry : m = 2 ^ 53 → a = .exact) (he : -1074 ≤ e) :
    ∃ m' e' hm', roundWithAccuracy Format.binary64 s m e a = .finite s m' e' hm' ∧
      2 ^ 52 ≤ m' ∧ m' < 2 ^ 53 ∧ -1074 ≤ e' ∧ (m' : ℚ) * 2 ^ e' = n * 2 ^ e := by
  have hcarried : ((2 ^ 52 : ℕ) : ℚ) * 2 ^ (e + 1) = (2 ^ 53 : ℕ) * 2 ^ e := by
    rw [zpow_add_one₀ (by norm_num)]
    push_cast
    ring
  have hpos : 0 < 2 ^ 52 := by norm_num
  obtain hlt | rfl : m < 2 ^ 53 ∨ m = 2 ^ 53 := by omega
  · have hfirst := shiftToTargetExponent_of_log2 (log2_eq_of_bounds hle hlt) he a
    have hrounded := (roundedMantissa_ofMantissaAndAccuracy m a).trans hn
    obtain hnlt | rfl : n < 2 ^ 53 ∨ n = 2 ^ 53 := by omega
    · have hsecond :=
        shiftToTargetExponent_of_log2 (log2_eq_of_bounds (hle.trans hmn) hnlt) he .exact
      refine ⟨n, e, by omega, ?_, by omega, hnlt, he, rfl⟩
      exact roundWithAccuracy_eq_finite hfirst (hrounded ▸ hsecond) (by omega)
    · have hsecond := shiftToTargetExponent_two_pow he
      rw [← hrounded] at hsecond
      refine ⟨2 ^ 52, e + 1, hpos, ?_, le_rfl, by norm_num, by omega, hcarried⟩
      exact roundWithAccuracy_eq_finite hfirst hsecond hpos
  · rw [hcarry rfl] at hn ⊢
    have hfirst := shiftToTargetExponent_two_pow he
    have hsecond :=
      shiftToTargetExponent_of_log2 (m := 2 ^ 52) (e := e + 1) Nat.log2_two_pow (by omega) .exact
    refine ⟨2 ^ 52, e + 1, hpos, ?_, le_rfl, by norm_num, by omega, ?_⟩
    · exact roundWithAccuracy_eq_finite hfirst hsecond hpos
    · rw [hcarried, ← hn, Accuracy.roundToNearestEven]

end Rounding

/-!
## The inverse
-/

section Inverse

variable {m : ℕ} {e : ℤ}

theorem divCore_one (hexponent : (m.log2 : ℤ) + e ≤ 0) :
    divCore Format.binary64 (2 ^ 52) (-52) m e = (2 ^ (53 + m.log2) / m, -(m.log2 + e) - 53,
      accuracyOfFraction (2 ^ (53 + m.log2) % m) m) := by
  have htarget :
      min (-52 - e) (Format.binary64.targetExponent
        (totalExponent (2 ^ 52) (-52) - totalExponent m e)) =
      -(m.log2 + e) - 53 := by
    rw [targetExponent_eq, totalExponent, totalExponent, Nat.log2_two_pow]
    norm_num
    omega
  have hshift : (-52 - e - (-(m.log2 + e) - 53)).toNat = m.log2 + 1 := by omega
  have hnumerator : 2 ^ 52 <<< (m.log2 + 1) = 2 ^ (53 + m.log2) := by
    rw [Nat.shiftLeft_eq, ← pow_add]
    congr 1
    omega
  simp only [divCore, htarget, hshift, hnumerator]

theorem abs_mul_zpow_sub_one_le {n l : ℕ} (hup : 2 * (n * m) ≤ 2 * 2 ^ (53 + l) + m)
    (hdown : 2 * 2 ^ (53 + l) ≤ 2 * (n * m) + m) (hm : m < 2 ^ (l + 1)) :
    |(n : ℚ) * m * 2 ^ (-(l : ℤ) - 53) - 1| ≤ 2 ^ (-53 : ℤ) := by
  have htwo : (2 : ℚ) ≠ 0 := by norm_num
  have hpos : (0 : ℚ) < 2 ^ (-(l : ℤ) - 53) := by positivity
  have hone : (2 : ℚ) ^ (53 + l) * 2 ^ (-(l : ℤ) - 53) = 1 := by
    rw [← zpow_natCast, ← zpow_add₀ htwo, ← zpow_zero (2 : ℚ)]
    congr 1
    omega
  have hlast : (2 : ℚ) ^ l * 2 ^ (-(l : ℤ) - 53) = 2 ^ (-53 : ℤ) := by
    rw [← zpow_natCast, ← zpow_add₀ htwo]
    congr 1
    omega
  have hdistance : |(n : ℚ) * m - 2 ^ (53 + l)| ≤ 2 ^ l := by
    rw [pow_succ] at hm
    rw [abs_sub_le_iff, sub_le_iff_le_add, sub_le_iff_le_add]
    norm_cast
    omega
  calc |(n : ℚ) * m * 2 ^ (-(l : ℤ) - 53) - 1|
      = |(n : ℚ) * m - 2 ^ (53 + l)| * 2 ^ (-(l : ℤ) - 53) := by
        rw [← hone, ← sub_mul, abs_mul, abs_of_pos hpos]
    _ ≤ 2 ^ l * 2 ^ (-(l : ℤ) - 53) := by gcongr
    _ = 2 ^ (-53 : ℤ) := hlast

theorem log2_add_nonpos (hm : 0 < m) (hle : (m : ℚ) * 2 ^ e ≤ 1) : (m.log2 : ℤ) + e ≤ 0 := by
  have hpower : (2 : ℚ) ^ ((m.log2 : ℤ) + e) ≤ 2 ^ (0 : ℤ) := calc
    (2 : ℚ) ^ ((m.log2 : ℤ) + e) = 2 ^ m.log2 * 2 ^ e := by
      rw [zpow_add₀ (by norm_num), zpow_natCast]
    _ ≤ m * 2 ^ e := by
      gcongr
      exact_mod_cast Nat.log2_self_le hm.ne'
    _ ≤ 2 ^ (0 : ℤ) := by simpa using hle
  exact (zpow_le_zpow_iff_right₀ (by norm_num)).mp hpower

/-- The inverse of a number up to one has 53 bits and is off by at most one half of the last of
them. -/
theorem exists_div_one_eq_finite (hm : 0 < m) (hexponent : (m.log2 : ℤ) + e ≤ 0) :
    ∃ m' e' hm', UnpackedFloat.div Format.binary64 (.finite .positive (2 ^ 52) (-52) (by decide))
        (.finite .positive m e hm) = .finite .positive m' e' hm' ∧
      2 ^ 52 ≤ m' ∧ m' < 2 ^ 53 ∧ -1074 ≤ e' ∧
      |(m' : ℚ) * 2 ^ e' * (m * 2 ^ e) - 1| ≤ 2 ^ (-53 : ℤ) := by
  have hlow : 2 ^ m.log2 ≤ m := Nat.log2_self_le hm.ne'
  have hhigh : m < 2 ^ (m.log2 + 1) := Nat.lt_log2_self
  have hnumerator : 2 ^ (53 + m.log2) = 2 ^ 53 * 2 ^ m.log2 := pow_add _ _ _
  obtain ⟨hup, hdown⟩ := two_mul_roundToNearestEven (2 ^ (53 + m.log2)) hm
  have hquotient :=
    le_roundToNearestEven (2 ^ (53 + m.log2) / m) (accuracyOfFraction (2 ^ (53 + m.log2) % m) m)
  generalize hn : (accuracyOfFraction (2 ^ (53 + m.log2) % m) m).roundToNearestEven
    (2 ^ (53 + m.log2) / m) = n at *
  have hle : 2 ^ 52 ≤ 2 ^ (53 + m.log2) / m := by
    rw [Nat.le_div_iff_mul_le hm, hnumerator]
    rw [pow_succ] at hhigh
    omega
  have hnle : n ≤ 2 ^ 53 := by
    by_contra! hlt
    have hmul : (2 ^ 53 + 1) * m ≤ n * m := Nat.mul_le_mul_right m hlt
    omega
  -- only a power of two has a quotient of 54 bits, and then nothing is left
  have hcarry :
      2 ^ (53 + m.log2) / m = 2 ^ 53 → accuracyOfFraction (2 ^ (53 + m.log2) % m) m = .exact := by
    intro heq
    have hmul : 2 ^ 53 * m ≤ 2 ^ (53 + m.log2) := heq ▸ Nat.div_mul_le_self _ _
    have hpower : 2 ^ (53 + m.log2) = 2 ^ 53 * m := by omega
    rw [hpower, Nat.mul_mod_left]
    rfl
  obtain ⟨m', e', hm', hround, hbits, hbound, hleast, hvalue⟩ :=
    exists_roundWithAccuracy_eq_finite .positive
      (e := -(m.log2 + e) - 53) hn hle hquotient hnle hcarry (by omega)
  refine ⟨m', e', hm', ?_, hbits, hbound, hleast, ?_⟩
  · have hdiv : UnpackedFloat.div Format.binary64
        (.finite .positive (2 ^ 52) (-52) (by decide)) (.finite .positive m e hm) =
          match divCore Format.binary64 (2 ^ 52) (-52) m e with
          | (n, e, a) => roundWithAccuracy Format.binary64 .positive n e a := rfl
    rw [hdiv, divCore_one hexponent]
    exact hround
  · have hscale : (m' : ℚ) * 2 ^ e' * (m * 2 ^ e) = n * m * 2 ^ (-(m.log2 : ℤ) - 53) := by
      rw [hvalue, mul_mul_mul_comm, ← zpow_add₀ (by norm_num)]
      congr 2
      omega
    rw [hscale]
    exact abs_mul_zpow_sub_one_le hup hdown hhigh

end Inverse

/-!
## The packed inverse
-/

section Fields

variable (s : Sign) (x : BitVec 11) (m : BitVec 52)

theorem ofBitVec_unpackSign_packComponents :
    Sign.ofBitVec (unpackSign (packComponents Format.binary64 s x m)) = s := by
  have hsign : unpackSign (packComponents Format.binary64 s x m) = s.toBitVec := by
    change (s.toBitVec ++ x ++ m).extractLsb' 63 1 = _
    rw [BitVec.extractLsb'_append_eq_of_le (by decide),
      BitVec.extractLsb'_append_eq_of_le (by decide)]
    cases s <;> rfl
  rw [hsign]
  cases s <;> rfl

theorem field_packComponents :
    ((packComponents Format.binary64 s x m).toNat >>> 52) % 2048 = x.toNat :=
  (toNat_unpackExponent _).symm.trans (congrArg BitVec.toNat unpackExponent_packComponents)

theorem fraction_packComponents :
    (packComponents Format.binary64 s x m).toNat % 2 ^ 52 = m.toNat :=
  (toNat_unpackMantissa _).symm.trans (congrArg BitVec.toNat unpackMantissa_packComponents)

end Fields

theorem pack_finite (s : Sign) {m : ℕ} {e : ℤ} {hm : 0 < m} (hle : 2 ^ 52 ≤ m) (hlt : m < 2 ^ 53) :
    UnpackedFloat.pack Format.binary64 (.finite s m e hm) =
      if 2 ^ 11 ≤ (e + 1075).toNat + 1 then packComponents Format.binary64 s (-1#11) 0#52
      else
        packComponents Format.binary64 s (BitVec.ofNat 11 (e + 1075).toNat)
          (BitVec.ofNat 52 m) := by
  have hbiased : e + Format.binary64.exponentBias + (52 : ℕ) = e + 1075 := by
    rw [add_assoc, bias_eq]
  have hbits : m.log2 + 1 = Format.binary64.mantissaBits := by
    rw [log2_eq_of_bounds hle hlt]
    rfl
  rw [← hbiased]
  exact congrArg (ite _ _) (if_pos hbits)

/-- A number that has the mantissa of a double is unpacked to itself after it has been packed, or to
infinity if its exponent is too large. -/
theorem unpack_pack (s : Sign) {m : ℕ} {e : ℤ} {hm : 0 < m} (hle : 2 ^ 52 ≤ m) (hlt : m < 2 ^ 53)
    (he : -1074 ≤ e) :
    UnpackedFloat.unpack Format.binary64 (UnpackedFloat.pack Format.binary64 (.finite s m e hm)) =
      if e ≤ 971 then .finite s m e hm else .infinity s := by
  rw [pack_finite s hle hlt]
  by_cases hlarge : e ≤ 971
  · rw [if_neg (by omega), if_pos hlarge]
    have hsign := ofBitVec_unpackSign_packComponents s (BitVec.ofNat 11 (e + 1075).toNat)
      (BitVec.ofNat 52 m)
    have hfield := field_packComponents s (BitVec.ofNat 11 (e + 1075).toNat) (BitVec.ofNat 52 m)
    have hfraction := fraction_packComponents s (BitVec.ofNat 11 (e + 1075).toNat)
      (BitVec.ofNat 52 m)
    rw [BitVec.toNat_ofNat] at hfield hfraction
    obtain ⟨h, hunpack⟩ := exists_unpack_of_normal
      (packComponents Format.binary64 s (BitVec.ofNat 11 (e + 1075).toNat) (BitVec.ofNat 52 m))
      (by omega) (by omega)
    rw [hunpack, UnpackedFloat.finite.injEq]
    exact ⟨hsign, by omega, by omega⟩
  · have hfraction : (packComponents Format.binary64 s (-1#11) 0#52).toNat % 2 ^ 52 = 0 :=
      fraction_packComponents s (-1#11) 0#52
    rw [if_pos (by omega), if_neg hlarge, unpack_of_ones _ (field_packComponents s _ _),
      if_pos hfraction, ofBitVec_unpackSign_packComponents]

/-- The number that the inverse of a number is computed to be is the inverse up to one half of its
last place. It is infinite only if it is too large for a double. -/
theorem parts_one_div {x : Float} {r : ℚ} (h : valueOf? x = some r) (hpos : 0 < r) (hle : r ≤ 1) :
    ∃ q : ℚ, |q * r - 1| ≤ 2 ^ (-53 : ℤ) ∧
      ((∃ m, parts (1.0 / x) = .finite false m ∧ m.value = q) ∨
        parts (1.0 / x) = .infinite false ∧ 2 ^ (1024 : ℤ) ≤ q) := by
  obtain ⟨m, e, hm, hunpack, rfl⟩ := exists_unpack_of_pos h hpos
  obtain ⟨m', e', hm', hdiv, hbits, hbound, hleast, hnear⟩ :=
    exists_div_one_eq_finite hm (log2_add_nonpos hm hle)
  have hquotient : (1.0 / x).toModel.unpack =
      if e' ≤ 971 then .finite .positive m' e' hm' else .infinity .positive := by
    rw [← unpack_pack .positive hbits hbound hleast, ← hdiv, ← hunpack]
    rfl
  refine ⟨m' * 2 ^ e', hnear, ?_⟩
  rw [parts_eq_partsOf, hquotient]
  by_cases hlarge : e' ≤ 971
  · rw [if_pos hlarge]
    refine .inl ⟨_, rfl, ?_⟩
    simp only [Magnitude.value]
    congr 2
    omega
  · rw [if_neg hlarge]
    refine .inr ⟨rfl, ?_⟩
    calc (2 : ℚ) ^ (1024 : ℤ) = 2 ^ (52 : ℤ) * 2 ^ (972 : ℤ) := by
          rw [← zpow_add₀ (by norm_num)]
          norm_num
      _ ≤ m' * 2 ^ e' := by
        gcongr
        · exact_mod_cast hbits
        · norm_num
        · omega

end HttpDispatch.Decimal
