import HttpDispatch.Log.Sampling
import HttpDispatch.Proofs.Decimal.Quotient
import Mathlib.Tactic.Qify

/-!
# The share of the log records that is kept

A sampler keeps every warning, every error and every span, and these have no part in what it decides
about the other records, of which it keeps one in so many (`Sampler.drawn_eq_keepAll`,
`Sampler.count_take_drawn`). How many that is is the whole number nearest to the inverse of the
share that is asked for (`Sampler.isInverse_wholeOf`), so the share is met only as well as its
inverse is a whole number: whether the number of the records kept stays within one of the share of
them, at every point of a log, is decided by the last whole round and the last round begun
(`Sampler.keepsShare_iff`).
-/

namespace HttpDispatch

open Decimal

/-- A record that is kept or not by its place among the records of its kind. -/
def LogRecord.isOrdinary (r : LogRecord) : Bool := !(r.isImportant || r.isSpan)

/-- Among the first records, however many, the number of those kept differs from the share `r` of
them by less than one. -/
def KeepsShare (r : ℚ) (kept : List Bool) : Prop :=
  ∀ n ≤ kept.length, |((kept.take n).count true : ℚ) - r * n| < 1

/-- The whole number `k` is nearest to the inverse of `r`, up to the last place of a floating-point
number, or it is the largest that fits into a word. -/
structure IsInverse (r : ℚ) (k : ℕ) : Prop where
  pos : 0 < k
  lt : k < 2 ^ 64
  le : r * k ≤ 1 + r / 2 + 2 ^ (-53 : ℤ)
  ge : k = 2 ^ 64 - 1 ∨ 1 ≤ r * k + r / 2 + 2 ^ (-53 : ℤ)

/-!
## One in so many
-/

section OneIn

variable {r : ℚ} {k : ℕ}

theorem count_map_range (hk : 0 < k) (n : ℕ) :
    ((List.range n).map fun i => decide (i % k = 0)).count true = (n + k - 1) / k := by
  induction n with
  | zero => simp [Nat.div_eq_of_lt (Nat.sub_lt hk one_pos)]
  | succ n ih =>
    have hround : (n + 1 + k - 1) / k = (n + k - 1) / k + if n % k = 0 then 1 else 0 := by
      have hdvd : k ∣ n + k - 1 + 1 ↔ n % k = 0 := by
        rw [Nat.sub_add_cancel (by omega), Nat.dvd_add_self_right, Nat.dvd_iff_mod_eq_zero]
      rw [show n + 1 + k - 1 = n + k - 1 + 1 by omega, Nat.succ_div]
      simp only [hdvd]
    rw [List.range_succ, List.map_append, List.count_append, ih, hround]
    by_cases hmod : n % k = 0 <;> simp [hmod]

/-- A share that is too small for half of the last place of its inverse to be neglected is one in
very many. -/
theorem IsInverse.two_pow_le (h : IsInverse r k) (hr : r < 2 ^ (-52 : ℤ)) : 2 ^ 51 ≤ k := by
  obtain rfl | hge := h.ge
  · norm_num
  · have hhalf : (1 : ℚ) / 2 ≤ r * k := by
      norm_num at hr hge
      linarith
    have hmul : r * k ≤ 2 ^ (-52 : ℤ) * k := by gcongr
    have hcast : ((2 : ℚ) ^ 51) ≤ k := by
      norm_num at hmul
      linarith
    exact_mod_cast hcast

/-- All but one of a round come to at most one record, or the rounds are too few for the difference
to add up. -/
theorem IsInverse.round_le (h : IsInverse r k) {n : ℕ} (hn : n < 2 ^ 64) :
    r * k - r ≤ 1 ∨ (n / k + 1 : ℕ) * (r * k - 1) < 1 := by
  have hle := h.le
  obtain hlarge | hsmall := le_or_gt ((2 : ℚ) ^ (-52 : ℤ)) r
  · left
    norm_num at hle hlarge
    linarith
  · right
    have hrounds : n / k + 1 ≤ 2 ^ 14 := by
      have hdiv : n / k ≤ n / 2 ^ 51 := Nat.div_le_div_left (h.two_pow_le hsmall) (by norm_num)
      omega
    have hexcess : r * k - 1 ≤ 2 ^ (-52 : ℤ) := by
      norm_num at hle hsmall ⊢
      linarith
    calc ((n / k + 1 : ℕ) : ℚ) * (r * k - 1) ≤ (n / k + 1 : ℕ) * 2 ^ (-52 : ℤ) := by gcongr
      _ ≤ (2 ^ 14 : ℕ) * 2 ^ (-52 : ℤ) := by gcongr
      _ < 1 := by norm_num

theorem mul_lt_of_le_of_mul_lt {a b : ℕ} {x c : ℚ} (hab : a ≤ b) (hc : 0 < c) (h : b * x < c) :
    a * x < c := by
  obtain hx | hx := le_total x 0
  · exact (mul_nonpos_of_nonneg_of_nonpos a.cast_nonneg hx).trans_lt hc
  · exact (mul_le_mul_of_nonneg_right (Nat.cast_le.mpr hab) hx).trans_lt h

theorem mul_add_sub_one_div (hk : 0 < k) (a : ℕ) : (a * k + k - 1) / k = a := by
  rw [Nat.mul_comm, Nat.add_sub_assoc hk, Nat.mul_add_div hk, Nat.div_eq_of_lt (by omega), add_zero]

theorem mul_add_add_sub_one_div (hk : 0 < k) (a : ℕ) {j : ℕ} (hj : 0 < j) (hjk : j ≤ k) :
    (a * k + j + k - 1) / k = a + 1 := by
  have hround : a * k + j + k - 1 = k * (a + 1) + (j - 1) := by
    rw [Nat.mul_succ, Nat.mul_comm]
    omega
  rw [hround, Nat.mul_add_div hk, Nat.div_eq_of_lt (by omega), add_zero]

/-- The share of the records of `a` rounds and of `j` records of the next one. The last round may be
whole, and then it is one of those that are counted; if it is not, its records come to at most one,
or the rounds are few. -/
theorem IsInverse.mul_lt_add_two (h : IsInverse r k) {n a j : ℕ} (hn : n < 2 ^ 64) (hr : 0 < r)
    (hwhole : (n / k : ℕ) * (r * k - 1) < 1) (hjk : j ≤ k) (hi : a * k + j ≤ n) :
    r * (a * k + j) < a + 2 := by
  have hrounds : a ≤ n / k := (Nat.le_div_iff_mul_le h.pos).mpr (by omega)
  obtain hround | ⟨hround, hpart⟩ :
      (a + 1 : ℕ) * (r * k - 1) < 1 ∨ (a : ℚ) * (r * k - 1) < 1 ∧ r * j ≤ 1 := by
    obtain rfl | hlt := hjk.eq_or_lt
    · have hlast : a + 1 ≤ n / j :=
        (Nat.le_div_iff_mul_le h.pos).mpr (by rw [Nat.succ_mul]; exact hi)
      exact .inl (mul_lt_of_le_of_mul_lt hlast one_pos hwhole)
    obtain hpart | hround := h.round_le hn
    · refine .inr ⟨mul_lt_of_le_of_mul_lt hrounds one_pos hwhole, ?_⟩
      have hmul : r * (j + 1) ≤ r * k := by
        gcongr
        exact_mod_cast hlt
      linarith
    · exact .inl (mul_lt_of_le_of_mul_lt (Nat.succ_le_succ hrounds) one_pos hround)
  · have hmul : r * j ≤ r * k := by gcongr
    push_cast at hround
    linarith
  · linarith

/-- Whether one in `k` is within one of the share at every point is decided by the last whole round
and the last round begun. -/
theorem IsInverse.abs_sub_lt_iff (h : IsInverse r k) {n : ℕ} (hn : n < 2 ^ 64) (hr : 0 < r) :
    (∀ i ≤ n, |(((i + k - 1) / k : ℕ) : ℚ) - r * i| < 1) ↔
      (n / k : ℕ) * (r * k - 1) < 1 ∧ ((n - 1) / k : ℕ) * (1 - r * k) < r := by
  have hk := h.pos
  constructor
  · intro hshare
    constructor
    · have hlast := hshare (n / k * k) (Nat.div_mul_le_self n k)
      rw [mul_add_sub_one_div hk] at hlast
      have hlow := (abs_lt.mp hlast).1
      push_cast at hlow
      linarith
    · obtain rfl | hpos := Nat.eq_zero_or_pos n
      · simpa using hr
      have hround := Nat.div_mul_le_self (n - 1) k
      have hfirst := hshare ((n - 1) / k * k + 1) (by omega)
      rw [mul_add_add_sub_one_div hk _ one_pos hk] at hfirst
      have hhigh := (abs_lt.mp hfirst).2
      push_cast at hhigh
      linarith
  · rintro ⟨hwhole, hbegun⟩ i hi
    obtain rfl | hpos := Nat.eq_zero_or_pos i
    · rw [Nat.zero_add, Nat.div_eq_of_lt (Nat.sub_lt hk one_pos)]
      simp
    -- the last of the `i` records is the `j`th of a round, so that record and the rounds before it
    -- are counted
    obtain ⟨a, j, rfl, hj, hjk⟩ : ∃ a j, i = a * k + j ∧ 0 < j ∧ j ≤ k := by
      refine ⟨(i - 1) / k, (i - 1) % k + 1, ?_, Nat.succ_pos _, Nat.mod_lt _ hk⟩
      have := Nat.div_add_mod' (i - 1) k
      omega
    rw [mul_add_add_sub_one_div hk a hj hjk, abs_lt]
    push_cast
    constructor
    · linarith [h.mul_lt_add_two hn hr hwhole hjk hi]
    · have hrounds : a ≤ (n - 1) / k := (Nat.le_div_iff_mul_le hk).mpr (by omega)
      have hlow := mul_lt_of_le_of_mul_lt hrounds hr hbegun
      have hone : r * 1 ≤ r * j := by
        gcongr
        exact_mod_cast hj
      linarith

end OneIn

namespace Sampler

/-!
## The interval
-/

section Interval

variable {rate : Float} {r : ℚ}

/-- The whole number nearest to a magnitude is off by at most one half, and a half goes up. -/
theorem nearestWhole_le_and_lt (m : Magnitude) :
    (nearestWhole m : ℚ) ≤ m.value + 1 / 2 ∧ m.value + 1 / 2 < nearestWhole m + 1 := by
  obtain ⟨hden, hnum⟩ := m.fraction_eq
  have hlow := Nat.div_mul_le_self (2 * m.fraction.1 + m.fraction.2) (2 * m.fraction.2)
  have hhigh :=
    Nat.lt_mul_div_succ (2 * m.fraction.1 + m.fraction.2) (by omega : 0 < 2 * m.fraction.2)
  change nearestWhole m * (2 * m.fraction.2) ≤ _ at hlow
  change _ < 2 * m.fraction.2 * (nearestWhole m + 1) at hhigh
  have hpos : (0 : ℚ) < 2 * m.fraction.2 := by positivity
  qify at hlow hhigh
  constructor
  · refine le_of_mul_le_mul_right ?_ hpos
    linarith
  · refine lt_of_mul_lt_mul_right ?_ hpos.le
    linarith

/-- The whole number that a number `q` is rounded to, and that has to fit into a word, is an inverse
where `q` is one up to its last place. -/
theorem isInverse_of_near {q : ℚ} {w : ℕ} (hpos : 0 < r) (hnear : |q * r - 1| ≤ 2 ^ (-53 : ℤ))
    (hlow : w ≤ q + 1 / 2) (hhigh : w = 2 ^ 64 - 1 ∨ w < 2 ^ 64 ∧ q + 1 / 2 < w + 1) (hw : 0 < w) :
    IsInverse r w := by
  obtain ⟨hbelow, habove⟩ := abs_le.mp hnear
  generalize hlast : (2 : ℚ) ^ (-53 : ℤ) = u at *
  refine ⟨hw, ?_, hlast ▸ ?_, hlast ▸ ?_⟩
  · obtain rfl | ⟨hlt, -⟩ := hhigh
    · norm_num
    · exact hlt
  · have hmul : r * w ≤ r * (q + 1 / 2) := by gcongr
    linarith
  · refine hhigh.imp_right fun ⟨_, hlt⟩ => ?_
    have hmul : r * (q + 1 / 2) ≤ r * (w + 1) := by gcongr
    linarith

/-- The inverse of a share is taken up to a half, and then up to the last place of what it is
computed to be. -/
theorem isInverse_wholeOf (h : valueOf? rate = some r) (hpos : 0 < r) (hle : r ≤ 1) :
    IsInverse r (wholeOf (1.0 / rate)) := by
  obtain ⟨q, hnear, ⟨m, hparts, rfl⟩ | ⟨hparts, hlarge⟩⟩ := parts_one_div h hpos hle
  · obtain ⟨hlow, hhigh⟩ := nearestWhole_le_and_lt m
    have hone : 0 < nearestWhole m := by
      have hvalue : 0 ≤ m.value := by unfold Magnitude.value; positivity
      have hmul : m.value * r ≤ m.value := mul_le_of_le_one_right hvalue hle
      have hbelow := (abs_le.mp hnear).1
      norm_num at hbelow
      have hcast : (0 : ℚ) < nearestWhole m := by linarith
      exact_mod_cast hcast
    have hwhole : wholeOf (1.0 / rate) = min (nearestWhole m) (2 ^ 64 - 1) := by
      simp only [wholeOf, hparts, Bool.false_eq_true, if_false]
      exact max_eq_right (le_min hone (by decide))
    rw [hwhole]
    refine isInverse_of_near hpos hnear ?_ ?_ (lt_min hone (by decide))
    · exact (Nat.cast_le.mpr (min_le_left _ _)).trans hlow
    · obtain hlarge | hlt := le_or_gt (2 ^ 64 - 1) (nearestWhole m)
      · exact .inl (min_eq_right hlarge)
      · rw [min_eq_left hlt.le]
        exact .inr ⟨by omega, hhigh⟩
  · have hwhole : wholeOf (1.0 / rate) = 2 ^ 64 - 1 := by
      simp only [wholeOf, hparts, Bool.false_eq_true, if_false]
      rfl
    have hword : (2 : ℚ) ^ (64 : ℤ) ≤ q :=
      (zpow_le_zpow_right₀ (by norm_num) (by norm_num)).trans hlarge
    rw [hwhole]
    refine isInverse_of_near hpos hnear ?_ (.inl rfl) (by norm_num)
    norm_num at hword ⊢
    linarith only [hword]

theorem intervalOf_eq (h : valueOf? rate = some r) (hle : r ≤ 1) :
    intervalOf rate = if r ≤ 0 then none else some (wholeOf (1.0 / rate)) := by
  unfold intervalOf
  simp only [le_zero_iff h, one_lt_iff h, hle.not_gt, if_false]

end Interval

/-!
## Decisions
-/

section Decisions

variable {s : Sampler}

def decisions (s : Sampler) (rs : List LogRecord) : List (LogRecord × Bool) := rs.zip (s.keepAll rs)

/-- What is decided about the ordinary records, in their order. -/
def drawn (s : Sampler) (rs : List LogRecord) : List Bool :=
  ((s.decisions rs).filter (·.1.isOrdinary)).map (·.2)

@[simp]
theorem decisions_cons (s : Sampler) (r : LogRecord) (rs : List LogRecord) :
    s.decisions (r :: rs) = (r, (s.keep r).1) :: (s.keep r).2.decisions rs :=
  rfl

theorem keepAll_cons (s : Sampler) (r : LogRecord) (rs : List LogRecord) :
    s.keepAll (r :: rs) = (s.keep r).1 :: (s.keep r).2.keepAll rs :=
  rfl

theorem length_keepAll (s : Sampler) (rs : List LogRecord) : (s.keepAll rs).length = rs.length := by
  induction rs generalizing s with
  | nil => rfl
  | cons r rs ih => rw [keepAll_cons, List.length_cons, ih, List.length_cons]

theorem keep_of_not_isOrdinary (hs : s.mode = .sampled) {r : LogRecord}
    (hr : r.isOrdinary = false) : s.keep r = (true, s) := by
  have hexempt : (r.isImportant || r.isSpan) = true := by
    rwa [LogRecord.isOrdinary, Bool.not_eq_false'] at hr
  simp [keep, hs, hexempt]

theorem keep_of_isOrdinary (hs : s.mode = .sampled) {r : LogRecord} (hr : r.isOrdinary = true) :
    s.keep r = s.count := by
  have hplain : (r.isImportant || r.isSpan) = false := by
    rwa [LogRecord.isOrdinary, Bool.not_eq_true'] at hr
  simp [keep, hs, hplain]

theorem mode_count (s : Sampler) : s.count.2.mode = s.mode := by
  unfold count
  split <;> rfl

theorem kept_of_not_isOrdinary (hs : s.mode = .sampled) {rs : List LogRecord} :
    ∀ p ∈ s.decisions rs, p.1.isOrdinary = false → p.2 = true := by
  induction rs generalizing s with
  | nil => simp [decisions]
  | cons r rs ih =>
    rw [decisions_cons, List.forall_mem_cons]
    cases hr : r.isOrdinary with
    | false =>
      rw [keep_of_not_isOrdinary hs hr]
      exact ⟨fun _ => rfl, ih hs⟩
    | true =>
      rw [keep_of_isOrdinary hs hr]
      exact ⟨fun h => by simp at h, ih ((mode_count s).trans hs)⟩

/-- Warnings, errors and spans have no part in what is decided about the other records. -/
theorem drawn_eq_keepAll (hs : s.mode = .sampled) (rs : List LogRecord) :
    s.drawn rs = s.keepAll (rs.filter (·.isOrdinary)) := by
  induction rs generalizing s with
  | nil => rfl
  | cons r rs ih =>
    unfold drawn at ih ⊢
    rw [decisions_cons]
    cases hr : r.isOrdinary with
    | false =>
      rw [keep_of_not_isOrdinary hs hr, List.filter_cons_of_neg (by simp [hr]),
        List.filter_cons_of_neg (by simp [hr])]
      exact ih hs
    | true =>
      rw [keep_of_isOrdinary hs hr, List.filter_cons_of_pos (by exact hr),
        List.filter_cons_of_pos hr, keepAll_cons, keep_of_isOrdinary hs hr,
        List.map_cons, ih ((mode_count s).trans hs)]

theorem keepAll_eq_map (hs : s.mode = .sampled) {k : ℕ} (hk : s.interval = some k)
    {rs : List LogRecord} (hrs : ∀ r ∈ rs, r.isOrdinary = true)
    (hlen : s.seen.toNat + rs.length < 2 ^ 64) :
    s.keepAll rs = (List.range' s.seen.toNat rs.length).map fun i => decide (i % k = 0) := by
  induction rs generalizing s with
  | nil => rfl
  | cons r rs ih =>
    rw [List.forall_mem_cons] at hrs
    rw [List.length_cons] at hlen
    have hcount : s.count = (decide (s.seen.toNat % k = 0), { s with seen := s.seen + 1 }) := by
      simp only [count, hk]
    -- the count stays within a word as long as the log does
    have hseen : (s.seen + 1).toNat = s.seen.toNat + 1 := by
      rw [UInt64.toNat_add, UInt64.toNat_one, Nat.mod_eq_of_lt (by omega)]
    rw [keepAll_cons, keep_of_isOrdinary hs hrs.1, hcount, List.length_cons, List.range'_succ,
      List.map_cons,
      ih (s := { s with seen := s.seen + 1 }) hs hk hrs.2 (by simp only [hseen]; omega)]
    simp only [hseen]

theorem keepAll_eq_replicate (hs : s.mode = .sampled) (hnone : s.interval = none)
    {rs : List LogRecord} (hrs : ∀ r ∈ rs, r.isOrdinary = true) :
    s.keepAll rs = List.replicate rs.length false := by
  induction rs with
  | nil => rfl
  | cons r rs ih =>
    rw [List.forall_mem_cons] at hrs
    have hcount : s.count = (false, s) := by simp only [count, hnone]
    rw [keepAll_cons, keep_of_isOrdinary hs hrs.1, hcount, ih hrs.2, List.length_cons,
      List.replicate_succ]

/-- A sampler that has counted nothing yet decides about the ordinary records by their numbers. -/
theorem drawn_eq_map (hs : s.mode = .sampled) {k : ℕ} (hk : s.interval = some k)
    (hseen : s.seen = 0) {rs : List LogRecord} (hrs : rs.length < 2 ^ 64) :
    s.drawn rs = (List.range (rs.countP (·.isOrdinary))).map fun i => decide (i % k = 0) := by
  have hzero : s.seen.toNat = 0 := by rw [hseen, UInt64.toNat_zero]
  have hlen : s.seen.toNat + (rs.filter (·.isOrdinary)).length < 2 ^ 64 := by
    rw [hzero, Nat.zero_add]
    exact (List.length_filter_le _ _).trans_lt hrs
  rw [drawn_eq_keepAll hs, keepAll_eq_map hs hk (fun r hr => (List.mem_filter.mp hr).2) hlen, hzero,
    ← List.range_eq_range', List.countP_eq_length_filter]

/-- Of the first ordinary records one in so many is kept, beginning with the first of them. -/
theorem count_take_drawn (hs : s.mode = .sampled) {k : ℕ} (hk : s.interval = some k) (hpos : 0 < k)
    (hseen : s.seen = 0) {rs : List LogRecord} (hrs : rs.length < 2 ^ 64) {i : ℕ}
    (hi : i ≤ rs.countP (·.isOrdinary)) : ((s.drawn rs).take i).count true = (i + k - 1) / k := by
  rw [drawn_eq_map hs hk hseen hrs, ← List.map_take, List.take_range, min_eq_left hi,
    count_map_range hpos]

theorem length_drawn (hs : s.mode = .sampled) (rs : List LogRecord) :
    (s.drawn rs).length = rs.countP (·.isOrdinary) := by
  rw [drawn_eq_keepAll hs, length_keepAll, List.countP_eq_length_filter]

end Decisions

/-!
## The share
-/

/-- What a sampler that keeps a share of the records makes of a log. Warnings, errors and spans are
kept, and have no part in the other decisions. If the share is zero, nothing else is kept. Otherwise
one in `k` of the other records is kept, where `k` is the inverse of the share as a whole number. So
the number of those kept stays within one of the share exactly if neither the whole rounds nor the
rounds begun are so many that the error of the inverse adds up. -/
theorem keepsShare_iff {rate : Float} {r : ℚ} (hrate : valueOf? rate = some r) (hnonneg : 0 ≤ r)
    (hle : r ≤ 1) {rs : List LogRecord} (hrs : rs.length < 2 ^ 64) :
    let s := ofRate .sampled rate
    let n := rs.countP (·.isOrdinary)
    (s.keepAll rs).length = rs.length ∧
    (∀ p ∈ s.decisions rs, p.1.isOrdinary = false → p.2 = true) ∧
    s.drawn rs = s.keepAll (rs.filter (·.isOrdinary)) ∧
    (r = 0 ∧ s.drawn rs = List.replicate n false ∧ KeepsShare r (s.drawn rs) ∨
      0 < r ∧ ∃ k, s.interval = some k ∧ IsInverse r k ∧
        (∀ i ≤ n, ((s.drawn rs).take i).count true = (i + k - 1) / k) ∧
        (KeepsShare r (s.drawn rs) ↔
          (n / k : ℕ) * (r * k - 1) < 1 ∧ ((n - 1) / k : ℕ) * (1 - r * k) < r)) := by
  intro s n
  have hs : s.mode = .sampled := rfl
  have hinterval : s.interval = if r ≤ 0 then none else some (wholeOf (1.0 / rate)) :=
    intervalOf_eq hrate hle
  refine ⟨length_keepAll s rs, kept_of_not_isOrdinary hs, drawn_eq_keepAll hs rs, ?_⟩
  obtain rfl | hpos := hnonneg.eq_or_lt
  · have hdrawn : s.drawn rs = List.replicate n false := by
      rw [drawn_eq_keepAll hs, keepAll_eq_replicate hs (hinterval.trans (if_pos le_rfl))
        (fun r hr => (List.mem_filter.mp hr).2), ← List.countP_eq_length_filter]
    refine .inl ⟨rfl, hdrawn, fun i _ => ?_⟩
    rw [hdrawn, List.take_replicate, List.count_replicate]
    simp
  · have hk := hinterval.trans (if_neg hpos.not_ge)
    have hinverse := isInverse_wholeOf hrate hpos hle
    have hcount (i : ℕ) (hi : i ≤ n) := count_take_drawn hs hk hinverse.pos rfl hrs hi
    have hn : n < 2 ^ 64 := List.countP_le_length.trans_lt hrs
    refine .inr ⟨hpos, _, hk, hinverse, hcount, ?_⟩
    rw [← hinverse.abs_sub_lt_iff hn hpos, KeepsShare, length_drawn hs]
    refine forall₂_congr fun i hi => ?_
    rw [hcount i hi]

/-- Three in four cannot be kept by keeping one in so many: of four records all are kept. -/
theorem keepsShare_iff_threeQuarters :
    let s := ofRate .sampled 0.75
    let rs := List.replicate 4 { level := .info }
    valueOf? 0.75 = some (3 / 4) ∧ s.keepAll rs = [true, true, true, true] ∧
      ¬KeepsShare (3 / 4) (s.drawn rs) := by
  intro s rs
  have hrate : valueOf? 0.75 = some (3 / 4) := by
    have hparts : parts 0.75 = .finite false ⟨3 * 2 ^ 51, 1022, false⟩ := by decide +kernel
    rw [valueOf?, hparts]
    norm_num [Magnitude.value]
  have hinterval : s.interval = some 1 := by decide +kernel
  refine ⟨hrate, by decide +kernel, ?_⟩
  have hlength : rs.length < 2 ^ 64 := by decide
  obtain ⟨-, -, -, ⟨hzero, -⟩ | ⟨-, k, hk, -, -, hiff⟩⟩ :=
    keepsShare_iff hrate (by norm_num) (by norm_num) hlength
  · norm_num at hzero
  · obtain rfl : 1 = k := Option.some.inj (hinterval.symm.trans hk)
    have hcount : rs.countP (·.isOrdinary) = 4 := by decide
    rw [hiff, hcount]
    norm_num

end Sampler

end HttpDispatch
