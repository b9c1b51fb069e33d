import HttpDispatch.Attempt
import HttpDispatch.Connection.Source

/-!
# Lines

Reading one line from a buffered reader, without ever taking more than the longest line allowed and
its end. A line ends at a line feed; a carriage return directly before it does not belong to the
line.
-/

namespace HttpDispatch

inductive Line where
  | none
  | text (s : String)
  | tooLong
  | unterminated
  | notText
deriving DecidableEq, Repr

def lineFeed : UInt8 := 0x0A

def carriageReturn : UInt8 := 0x0D

namespace Reader

/-- Takes bytes up to and including the first line feed, but at most `most`. -/
def takeLine (r : Reader) (most : Nat) : Except IoError Bytes × Reader :=
  if most = 0 then (.ok [], r)
  else match r.fill with
    | (.error e, r) => (.error e, r)
    | (.ok (), r) =>
      match r.buffer.take most with
      | [] => (.ok [], r)
      | b :: bs =>
        let seen := b :: bs
        if lineFeed ∈ seen then
          let k := seen.idxOf lineFeed + 1
          (.ok (seen.take k), r.discard k)
        else
          match takeLine (r.discard seen.length) (most - seen.length) with
          | (.ok rest, r) => (.ok (seen ++ rest), r)
          | (.error e, r) => (.error e, r)
termination_by most
decreasing_by simp only [List.length_cons]; omega

/-- Without the end of line at the end of `b`, where the line feed has been taken off already. -/
def dropReturn (b : Bytes) : Bytes := if b.getLast? = some carriageReturn then b.dropLast else b

def readLine (r : Reader) (max : Nat) : Attempt Reader IoError Line :=
  match r.takeLine (max + 2) with
  | (.error e, r) => (.error e, r)
  | (.ok b, r) =>
    (.ok (
      if b = [] then .none
      else if b.getLast? ≠ some lineFeed then
        if max + 2 ≤ b.length then .tooLong else .unterminated
      else
        let line := dropReturn b.dropLast
        if max < line.length then .tooLong
        else match Text.decode? line with
          | some s => .text s
          | none => .notText), r)

theorem rest_of_takeLine_ok {r r' : Reader} {most : Nat} {b : Bytes}
    (h : r.takeLine most = (.ok b, r')) : r.rest = b ++ r'.rest := by
  induction most using Nat.strongRecOn generalizing r b with
  | ind most ih =>
    unfold takeLine at h
    split at h
    · cases h; rfl
    have hfill := rest_fill r
    split at h
    · cases h
    · next r₁ h₁ =>
      rw [h₁] at hfill
      simp only at hfill
      split at h
      · cases h; simp [hfill]
      · next x xs hx =>
        have hpre : ∀ k, k ≤ (x :: xs).length →
            r₁.rest = (x :: xs).take k ++ (r₁.discard k).rest := by
          intro k hk
          have hlen : (x :: xs).length ≤ r₁.buffer.length := by
            rw [← hx]; exact List.length_take_le' _ _
          rw [rest_discard _ _ (by omega), ← hx, List.take_take]
          have hk' : k ≤ most := by
            have : (x :: xs).length ≤ most := by rw [← hx]; exact List.length_take_le _ _
            omega
          rw [Nat.min_eq_left hk']
          have : r₁.buffer.take k = r₁.rest.take k := by
            rw [rest, List.take_append_of_le_length (by omega)]
          rw [this, List.take_append_drop]
        dsimp only at h
        split at h
        · next hm =>
          cases h
          rw [← hfill]
          exact hpre _ (List.idxOf_lt_length_of_mem hm)
        · split at h
          · next rest r₂ h₂ =>
            cases h
            have := ih (most - (x :: xs).length) (by simp only [List.length_cons]; omega) h₂
            have h₃ := hpre (x :: xs).length (Nat.le_refl _)
            rw [List.take_length] at h₃
            rw [← hfill, h₃, this, List.append_assoc]
          · cases h

theorem length_rest_lt_of_readLine {r r' : Reader} {max : Nat} {s : String}
    (h : r.readLine max = (.ok (.text s), r')) : r'.rest.length < r.rest.length := by
  unfold readLine at h
  split at h
  · cases h
  · next b r₁ h₁ =>
    have hr := rest_of_takeLine_ok h₁
    simp only [Prod.mk.injEq, Except.ok.injEq] at h
    obtain ⟨h, rfl⟩ := h
    split at h
    · cases h
    · next hb =>
      rw [hr, List.length_append]
      have := List.length_pos_iff.2 hb
      omega

end Reader

end HttpDispatch
