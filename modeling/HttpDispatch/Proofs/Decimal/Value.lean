import HttpDispatch.Decimal.Shortest
import Mathlib.Algebra.Order.Field.Power
import Mathlib.Data.Rat.Cast.Order
import Mathlib.Tactic.Linarith
import Mathlib.Tactic.NormNum
import Mathlib.Tactic.Positivity
import Mathlib.Tactic.Ring

/-!
# The number that a floating-point number stands for

A finite floating-point number stands for a mantissa times a power of two, which is a rational
number (`Decimal.valueOf?`). The parts into which the number is taken apart here are those that its
arithmetic goes by (`Decimal.parts_eq_partsOf`), so that comparisons with zero and one can be made
on what the number stands for (`Decimal.le_zero_iff`, `Decimal.one_lt_iff`).
-/

namespace HttpDispatch.Decimal

open Float.Model
open Float.Model.UnpackedFloat (Sign unpackMantissa unpackExponent unpackSign)

def Magnitude.value (m : Magnitude) : ℚ := m.mantissa * (2 : ℚ) ^ ((m.power : ℤ) - 1075)

/-- The number that a floating-point number stands for, if it is finite. -/
def valueOf? (x : Float) : Option ℚ :=
  match parts x with
  | .finite negative m => some (if negative then -m.value else m.value)
  | .infinite _ => none
  | .notANumber => none

theorem Magnitude.fraction_eq (m : Magnitude) :
    0 < m.fraction.2 ∧ (m.fraction.1 : ℚ) = m.value * m.fraction.2 := by
  unfold fraction value
  have htwo : (2 : ℚ) ≠ 0 := by norm_num
  split
  · next h =>
    have hpower : (m.power : ℤ) - 1075 = ((m.power - 1075 : ℕ) : ℤ) := by omega
    refine ⟨by norm_num, ?_⟩
    rw [hpower, zpow_natCast, Nat.shiftLeft_eq]
    push_cast
    ring
  · next h =>
    have hpower : (m.power : ℤ) - 1075 = -((1075 - m.power : ℕ) : ℤ) := by omega
    refine ⟨by simp [Nat.shiftLeft_eq], ?_⟩
    rw [hpower, zpow_neg, zpow_natCast, Nat.shiftLeft_eq]
    push_cast
    rw [mul_assoc, mul_left_comm _ (4 : ℚ), inv_mul_cancel₀ (pow_ne_zero _ htwo)]
    ring

/-!
## The fields of the packed number
-/

section Fields

variable (b : BitVec 64)

theorem toNat_unpackMantissa : (@unpackMantissa Format.binary64 b).toNat = b.toNat % 2 ^ 52 := by
  simp [unpackMantissa]

theorem toNat_unpackExponent :
    (@unpackExponent Format.binary64 b).toNat = (b.toNat >>> 52) % 2048 := by
  simp [unpackExponent]

theorem toNat_unpackSign : (@unpackSign Format.binary64 b).toNat = b.toNat >>> 63 := by
  have hlt : b.toNat >>> 63 < 2 := by
    rw [Nat.shiftRight_eq_div_pow]
    omega
  change (b.extractLsb 63 63).toNat = _
  rw [BitVec.extractLsb_toNat]
  omega

theorem unpackExponent_eq_ones_iff :
    @unpackExponent Format.binary64 b = -1#11 ↔ (b.toNat >>> 52) % 2048 = 2047 := by
  rw [← toNat_unpackExponent, ← BitVec.toNat_inj]
  rfl

theorem unpackExponent_eq_zero_iff :
    @unpackExponent Format.binary64 b = 0#11 ↔ (b.toNat >>> 52) % 2048 = 0 := by
  rw [← toNat_unpackExponent, ← BitVec.toNat_inj]
  rfl

theorem unpackExponent_ne_ones_of_zeros (h : (b.toNat >>> 52) % 2048 = 0) :
    ¬@unpackExponent Format.binary64 b = -1#11 :=
  (unpackExponent_eq_ones_iff b).not.mpr (by omega)

theorem unpackMantissa_eq_zero_iff :
    @unpackMantissa Format.binary64 b = 0#52 ↔ b.toNat % 2 ^ 52 = 0 := by
  rw [← toNat_unpackMantissa, ← BitVec.toNat_inj]
  rfl

theorem toNat_one_append (m : BitVec 52) : (1#1 ++ m).toNat = 2 ^ 52 + m.toNat := by
  rw [BitVec.toNat_append, ← Nat.shiftLeft_add_eq_or_of_lt m.isLt]
  rfl

theorem bias_eq : (Format.binary64.exponentBias : ℤ) + (52 : ℕ) = 1075 := rfl

theorem exists_finite_eq {s : Sign} {m m' : ℕ} {e e' : ℤ} (hm : 0 < m) (hmantissa : m = m')
    (hexponent : e = e') :
    ∃ h, UnpackedFloat.finite s m e hm = UnpackedFloat.finite s m' e' h := by
  subst hmantissa hexponent
  exact ⟨hm, rfl⟩

/-!
How a number is unpacked, by the numbers in its fields.
-/

theorem unpack_of_ones (h : (b.toNat >>> 52) % 2048 = 2047) :
    UnpackedFloat.unpack Format.binary64 b =
      if b.toNat % 2 ^ 52 = 0 then .infinity (.ofBitVec (@unpackSign Format.binary64 b))
      else .notANumber := by
  simp only [← unpackMantissa_eq_zero_iff]
  exact if_pos ((unpackExponent_eq_ones_iff b).mpr h)

theorem unpack_of_zeros (h : (b.toNat >>> 52) % 2048 = 0) (hzero : b.toNat % 2 ^ 52 = 0) :
    UnpackedFloat.unpack Format.binary64 b =
      .zero (.ofBitVec (@unpackSign Format.binary64 b)) :=
  ((if_neg (unpackExponent_ne_ones_of_zeros b h)).trans
    (if_pos ((unpackExponent_eq_zero_iff b).mpr h))).trans
    (dif_pos ((unpackMantissa_eq_zero_iff b).mpr hzero))

theorem exists_unpack_of_subnormal (h : (b.toNat >>> 52) % 2048 = 0)
    (hzero : b.toNat % 2 ^ 52 ≠ 0) :
    ∃ hm, UnpackedFloat.unpack Format.binary64 b =
      .finite (.ofBitVec (@unpackSign Format.binary64 b)) (b.toNat % 2 ^ 52) (-1074) hm := by
  have hm : 0 < (@unpackMantissa Format.binary64 b).toNat := by
    rw [toNat_unpackMantissa]
    exact Nat.pos_of_ne_zero hzero
  have hunpack : UnpackedFloat.unpack Format.binary64 b =
      .finite (.ofBitVec (@unpackSign Format.binary64 b)) (@unpackMantissa Format.binary64 b).toNat
        ((@unpackExponent Format.binary64 b).toNat -
          (Format.binary64.exponentBias + (52 : ℕ)) + 1) hm :=
    ((if_neg (unpackExponent_ne_ones_of_zeros b h)).trans
      (if_pos ((unpackExponent_eq_zero_iff b).mpr h))).trans
      (dif_neg ((unpackMantissa_eq_zero_iff b).not.mpr hzero))
  rw [hunpack]
  refine exists_finite_eq hm (toNat_unpackMantissa b) ?_
  rw [toNat_unpackExponent, bias_eq, h]
  rfl

theorem exists_unpack_of_normal (hones : (b.toNat >>> 52) % 2048 ≠ 2047)
    (hzeros : (b.toNat >>> 52) % 2048 ≠ 0) :
    ∃ hm, UnpackedFloat.unpack Format.binary64 b =
      .finite (.ofBitVec (@unpackSign Format.binary64 b)) (2 ^ 52 + b.toNat % 2 ^ 52)
        (((b.toNat >>> 52) % 2048 : ℕ) - 1075) hm := by
  have hm : 0 < (1#1 ++ @unpackMantissa Format.binary64 b).toNat := by
    rw [toNat_one_append]
    omega
  have hunpack : UnpackedFloat.unpack Format.binary64 b =
      .finite (.ofBitVec (@unpackSign Format.binary64 b))
        (1#1 ++ @unpackMantissa Format.binary64 b).toNat
        ((@unpackExponent Format.binary64 b).toNat -
          (Format.binary64.exponentBias + (52 : ℕ))) hm :=
    (if_neg ((unpackExponent_eq_ones_iff b).not.mpr hones)).trans
      (if_neg ((unpackExponent_eq_zero_iff b).not.mpr hzeros))
  rw [hunpack]
  refine exists_finite_eq hm ?_ ?_
  · rw [toNat_one_append, toNat_unpackMantissa]
  · rw [toNat_unpackExponent, bias_eq]

end Fields

def isNegative : Sign → Bool
  | .negative => true
  | .positive => false

theorem isNegative_ofBitVec (v : BitVec 1) : isNegative (.ofBitVec v) = decide (v.toNat = 1) := by
  revert v
  decide

/-- The mantissa and the exponent of a finite number are those of a double: at most 53 bits, and
fewer only where the exponent is the least there is. -/
def IsDouble : UnpackedFloat → Prop
  | .finite _ m e _ => -1074 ≤ e ∧ e ≤ 971 ∧ m < 2 ^ 53 ∧ (2 ^ 52 ≤ m ∨ e = -1074)
  | _ => True

theorem isDouble_unpack (b : BitVec 64) : IsDouble (UnpackedFloat.unpack Format.binary64 b) := by
  have hmantissa : b.toNat % 2 ^ 52 < 2 ^ 52 := Nat.mod_lt _ (by decide)
  have hexponent : (b.toNat >>> 52) % 2048 < 2048 := Nat.mod_lt _ (by decide)
  by_cases hones : (b.toNat >>> 52) % 2048 = 2047
  · rw [unpack_of_ones b hones]
    split <;> trivial
  by_cases hzeros : (b.toNat >>> 52) % 2048 = 0
  · by_cases hzero : b.toNat % 2 ^ 52 = 0
    · rw [unpack_of_zeros b hzeros hzero]
      trivial
    · obtain ⟨hm, hunpack⟩ := exists_unpack_of_subnormal b hzeros hzero
      rw [hunpack]
      exact ⟨le_rfl, by norm_num, by omega, .inr rfl⟩
  · obtain ⟨hm, hunpack⟩ := exists_unpack_of_normal b hones hzeros
    rw [hunpack]
    exact ⟨by omega, by omega, by omega, .inl (by omega)⟩

theorem isDouble_toModel_unpack (x : Float) : IsDouble x.toModel.unpack :=
  isDouble_unpack x.toModel.toBits.toBitVec

def partsOf : UnpackedFloat → Parts
  | .infinity s => .infinite (isNegative s)
  | .notANumber => .notANumber
  | .zero s => .finite (isNegative s) ⟨0, 1, false⟩
  | .finite s m e _ => .finite (isNegative s) ⟨m, (e + 1075).toNat, m = 2 ^ 52 && e ≠ -1074⟩

theorem partsOf_infinity (s : Sign) : partsOf (.infinity s) = .infinite (isNegative s) := rfl

theorem partsOf_zero (s : Sign) : partsOf (.zero s) = .finite (isNegative s) ⟨0, 1, false⟩ := rfl

theorem partsOf_finite (s : Sign) (m : ℕ) (e : ℤ) (hm : 0 < m) :
    partsOf (.finite s m e hm) =
      .finite (isNegative s) ⟨m, (e + 1075).toNat, m = 2 ^ 52 && e ≠ -1074⟩ := rfl

/-- The parts of a number are those of what its arithmetic unpacks it to. -/
theorem parts_eq_partsOf (x : Float) : parts x = partsOf x.toModel.unpack := by
  have hbits : x.toBits.toNat = x.toModel.toBits.toBitVec.toNat := rfl
  unfold parts Float.Model.unpack
  simp only [hbits, Nat.one_shiftLeft]
  generalize x.toModel.toBits.toBitVec = b
  have hmantissa : b.toNat % 2 ^ 52 < 2 ^ 52 := Nat.mod_lt _ (by decide)
  by_cases hones : (b.toNat >>> 52) % 2048 = 2047
  · rw [if_pos hones, unpack_of_ones b hones]
    split
    · rw [partsOf_infinity, isNegative_ofBitVec, toNat_unpackSign]
    · rfl
  rw [if_neg hones]
  by_cases hzeros : (b.toNat >>> 52) % 2048 = 0
  · rw [if_pos hzeros]
    by_cases hzero : b.toNat % 2 ^ 52 = 0
    · rw [unpack_of_zeros b hzeros hzero, partsOf_zero, isNegative_ofBitVec, toNat_unpackSign,
        hzero]
    · obtain ⟨hm, hunpack⟩ := exists_unpack_of_subnormal b hzeros hzero
      rw [hunpack, partsOf_finite, isNegative_ofBitVec, toNat_unpackSign]
      simp only [hmantissa.ne, decide_false, Bool.false_and]
      rfl
  · obtain ⟨hm, hunpack⟩ := exists_unpack_of_normal b hones hzeros
    rw [if_neg hzeros, hunpack, partsOf_finite, isNegative_ofBitVec, toNat_unpackSign,
      Parts.finite.injEq, Magnitude.mk.injEq]
    refine ⟨rfl, rfl, by omega, ?_⟩
    congr 2 <;> simp only [eq_iff_iff] <;> omega

section Value

variable {x : Float} {r : ℚ}

/-- A finite number is a zero, or a signed mantissa times a power of two. -/
theorem unpack_of_valueOf? (h : valueOf? x = some r) :
    (∃ s, x.toModel.unpack = .zero s ∧ r = 0) ∨
      ∃ s m e hm, x.toModel.unpack = .finite s m e hm ∧ r = (s.apply m : ℤ) * (2 : ℚ) ^ e := by
  have hdouble := isDouble_toModel_unpack x
  unfold valueOf? at h
  rw [parts_eq_partsOf] at h
  cases hunpack : x.toModel.unpack with
  | infinity s =>
    rw [hunpack] at h
    cases h
  | notANumber =>
    rw [hunpack] at h
    cases h
  | zero s =>
    left
    refine ⟨s, rfl, ?_⟩
    cases s <;> simp_all [partsOf_zero, Magnitude.value, isNegative]
  | finite s m e hm =>
    right
    rw [hunpack] at h hdouble
    have hexponent : (((e + 1075).toNat : ℕ) : ℤ) - 1075 = e := by
      have := hdouble.1
      omega
    rw [partsOf_finite] at h
    simp only [Magnitude.value, hexponent, Option.some.injEq] at h
    refine ⟨s, m, e, hm, rfl, ?_⟩
    rw [← h]
    cases s <;> simp [isNegative, Sign.apply]

theorem exists_unpack_of_pos (h : valueOf? x = some r) (hpos : 0 < r) :
    ∃ m e hm, x.toModel.unpack = .finite .positive m e hm ∧ r = m * (2 : ℚ) ^ e := by
  obtain ⟨s, hunpack, rfl⟩ | ⟨s, m, e, hm, hunpack, rfl⟩ := unpack_of_valueOf? h
  · exact absurd hpos (lt_irrefl 0)
  cases s with
  | positive => exact ⟨m, e, hm, hunpack, by simp [Sign.apply]⟩
  | negative =>
    have habove : (0 : ℚ) < m * 2 ^ e := by positivity
    simp only [Sign.apply, Int.cast_neg, Int.cast_natCast, neg_mul, Left.neg_pos_iff] at hpos
    exact absurd hpos habove.not_gt

theorem le_iff_unpack (x y : Float) : x ≤ y ↔ x.toModel.unpack.le y.toModel.unpack = true :=
  decide_eq_true_iff

theorem lt_iff_unpack (x y : Float) : x < y ↔ x.toModel.unpack.lt y.toModel.unpack = true :=
  decide_eq_true_iff

/-- A number is at most zero exactly if what it stands for is. -/
theorem le_zero_iff (h : valueOf? x = some r) : x ≤ 0.0 ↔ r ≤ 0 := by
  have hzero : (0.0 : Float).toModel.unpack = .zero .positive := rfl
  rw [le_iff_unpack, hzero]
  obtain ⟨s, hunpack, rfl⟩ | ⟨s, m, e, hm, hunpack, rfl⟩ := unpack_of_valueOf? h
  · rw [hunpack]
    exact iff_of_true rfl le_rfl
  · have hpos : (0 : ℚ) < m * (2 : ℚ) ^ e := by positivity
    rw [hunpack]
    cases s with
    | negative => exact iff_of_true rfl (by simp [Sign.apply, hpos.le])
    | positive => exact iff_of_false Bool.false_ne_true (by simp [Sign.apply, hpos])

/-- Numbers above zero with the mantissas and exponents of doubles are in order with one as their
exponents are, and where these are equal, as their mantissas are. -/
theorem one_lt_mul_zpow_iff {m : ℕ} {e : ℤ} (hm : m < 2 ^ 53) (hnormal : 2 ^ 52 ≤ m ∨ e = -1074) :
    1 < (m : ℚ) * 2 ^ e ↔ -52 < e ∨ e = -52 ∧ 2 ^ 52 < m := by
  have hone : (2 : ℚ) ^ 52 * 2 ^ (-52 : ℤ) = 1 := by norm_num
  rcases lt_trichotomy e (-52) with he | rfl | he
  · have hpow : (2 : ℚ) ^ e ≤ 2 ^ (-53 : ℤ) := zpow_le_zpow_right₀ (by norm_num) (by omega)
    have hle : (m : ℚ) * 2 ^ e ≤ 1 := calc
      (m : ℚ) * 2 ^ e ≤ 2 ^ 53 * 2 ^ (-53 : ℤ) := by gcongr; exact_mod_cast hm.le
      _ = 1 := by norm_num
    exact iff_of_false hle.not_gt (by omega)
  · have hpos : (0 : ℚ) < 2 ^ (-52 : ℤ) := by positivity
    rw [← hone, mul_lt_mul_iff_left₀ hpos]
    norm_cast
    omega
  · have hpow : (2 : ℚ) ^ (-51 : ℤ) ≤ 2 ^ e := zpow_le_zpow_right₀ (by norm_num) (by omega)
    have hlt : 1 < (m : ℚ) * 2 ^ e := calc
      (1 : ℚ) < 2 ^ 52 * 2 ^ (-51 : ℤ) := by norm_num
      _ ≤ m * 2 ^ e := by
        gcongr
        exact_mod_cast (hnormal.resolve_right (by omega))
    exact iff_of_true hlt (.inl he)

/-- A number is above one exactly if what it stands for is. -/
theorem one_lt_iff (h : valueOf? x = some r) : 1.0 < x ↔ 1 < r := by
  have hone : (1.0 : Float).toModel.unpack = .finite .positive (2 ^ 52) (-52) (by decide) := rfl
  have hdouble := isDouble_toModel_unpack x
  rw [lt_iff_unpack, hone]
  obtain ⟨s, hunpack, rfl⟩ | ⟨s, m, e, hm, hunpack, rfl⟩ := unpack_of_valueOf? h
  · rw [hunpack]
    cases s <;> exact iff_of_false Bool.false_ne_true (by norm_num)
  · rw [hunpack] at hdouble ⊢
    obtain ⟨-, -, hlt, hnormal⟩ := hdouble
    cases s with
    | negative =>
      have hpos : (0 : ℚ) < m * (2 : ℚ) ^ e := by positivity
      have hle : ((Sign.apply .negative m : ℤ) : ℚ) * 2 ^ e ≤ 1 := by
        simp only [Sign.apply]
        push_cast
        linarith
      exact iff_of_false Bool.false_ne_true hle.not_gt
    | positive =>
      have horder : ((compare (-52) e).then (compare (2 ^ 52) m) = .lt) ↔
          -52 < e ∨ e = -52 ∧ 2 ^ 52 < m := by
        rw [Ordering.then_eq_lt, compare_lt_iff_lt, compare_eq_iff_eq, compare_lt_iff_lt,
          eq_comm (a := e)]
      change (some ((compare (-52) e).then (compare (2 ^ 52) m)) == some .lt) = true ↔ _
      rw [beq_iff_eq, Option.some.injEq, horder, Sign.apply, Int.cast_natCast,
        one_lt_mul_zpow_iff hlt hnormal]

end Value

end HttpDispatch.Decimal
