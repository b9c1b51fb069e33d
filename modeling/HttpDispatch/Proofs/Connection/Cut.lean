import HttpDispatch.Connection.Line
import HttpDispatch.Proofs.Connection.Source
import Mathlib.Data.List.Basic

/-!
# Where a line is cut off

What is taken for a line depends on nothing but the bytes that are left and on how the reader ends
after them (`Reader.Holds.takeLine_eq`). How many of the bytes are at hand, and in which pieces the
others come, makes no difference: a piece without a line feed is put before what is taken from the
rest (`Reader.takenLine_append`).
-/

namespace HttpDispatch

namespace Reader

variable {r : Reader} {b : Bytes} {failure : Option IoError}

/-- What is taken for a line of at most `most` bytes where `b` is left, and what is
left after it. -/
def takenLine (b : Bytes) (failure : Option IoError) (most : Nat) : Except IoError Bytes × Bytes :=
  if lineFeed ∈ b.take most then
    (.ok (b.take (b.idxOf lineFeed + 1)), b.drop (b.idxOf lineFeed + 1))
  else if most ≤ b.length then (.ok (b.take most), b.drop most)
  else (failure.elim (.ok b) .error, [])

theorem takenLine_zero (b : Bytes) (failure : Option IoError) :
    takenLine b failure 0 = (.ok [], b) := by
  rw [takenLine, List.take_zero, if_neg List.not_mem_nil, if_pos (Nat.zero_le _), List.drop_zero]

theorem takenLine_nil {most : Nat} (h : most ≠ 0) :
    takenLine [] failure most = (failure.elim (.ok []) .error, []) := by
  rw [takenLine, List.take_nil, if_neg List.not_mem_nil, if_neg (by simpa using h)]

theorem idxOf_lineFeed {line : Bytes} (hline : lineFeed ∉ line) (rest : Bytes) :
    (line ++ lineFeed :: rest).idxOf lineFeed + 1 = (line ++ [lineFeed]).length := by
  rw [List.idxOf_append_of_notMem hline, List.idxOf_cons_self, List.length_append,
    List.length_singleton]

theorem takenLine_of_lineFeed {line : Bytes} {most : Nat} (hline : lineFeed ∉ line)
    (hmost : line.length < most) (rest : Bytes) :
    takenLine (line ++ lineFeed :: rest) failure most = (.ok (line ++ [lineFeed]), rest) := by
  have hmem : lineFeed ∈ (line ++ lineFeed :: rest).take most := by
    obtain ⟨k, rfl⟩ := Nat.exists_eq_add_of_lt hmost
    rw [Nat.add_assoc, List.take_length_add_append, List.take_succ_cons]
    exact List.mem_append_right _ List.mem_cons_self
  rw [takenLine, if_pos hmem, idxOf_lineFeed hline, List.append_cons line lineFeed rest,
    List.take_left, List.drop_left]

theorem eq_append_of_takenLine {taken rest : Bytes} {most : Nat}
    (h : takenLine b failure most = (.ok taken, rest)) (hlast : taken.getLast? = some lineFeed) :
    ∃ line, taken = line ++ [lineFeed] ∧ lineFeed ∉ line ∧ b = line ++ lineFeed :: rest := by
  have hmem : lineFeed ∈ taken := List.mem_of_getLast? hlast
  unfold takenLine at h
  split at h
  · next hfound =>
    obtain ⟨line, rest', rfl, hline⟩ := List.eq_append_cons_of_mem (List.mem_of_mem_take hfound)
    rw [idxOf_lineFeed hline, List.append_cons line lineFeed rest', List.take_left,
      List.drop_left] at h
    cases h
    exact ⟨line, rfl, hline, rfl⟩
  · next hnone =>
    split at h
    · cases h
      exact absurd hmem hnone
    · next hshort =>
      cases failure with
      | some e => cases h
      | none =>
          cases h
          rw [List.take_of_length_le (Nat.le_of_not_le hshort)] at hnone
          exact absurd hmem hnone

/-- Bytes without a line feed are put before what is taken from those after them. -/
theorem takenLine_append {seen : Bytes} {most : Nat} (hseen : lineFeed ∉ seen)
    (hlen : seen.length ≤ most) (after : Bytes) :
    takenLine (seen ++ after) failure most =
      ((takenLine after failure (most - seen.length)).1.map (seen ++ ·),
        (takenLine after failure (most - seen.length)).2) := by
  have htake : (seen ++ after).take most = seen ++ after.take (most - seen.length) := by
    rw [List.take_append, List.take_of_length_le hlen]
  have hmem : lineFeed ∈ (seen ++ after).take most ↔
      lineFeed ∈ after.take (most - seen.length) := by
    rw [htake, List.mem_append, or_iff_right hseen]
  have hle : most ≤ (seen ++ after).length ↔ most - seen.length ≤ after.length := by
    rw [List.length_append]
    omega
  unfold takenLine
  simp only [hmem, hle]
  split
  · rw [List.idxOf_append_of_notMem hseen, Nat.add_assoc, List.take_length_add_append,
      List.drop_length_add_append]
    rfl
  · split
    · rw [htake, List.drop_append, List.drop_eq_nil_of_le hlen, List.nil_append]
      rfl
    · cases failure <;> rfl

theorem Holds.fill_nil (h : r.Holds [] failure) : r.fill = (failure.elim (.ok ()) .error, r) := by
  obtain ⟨hbuffer, hrest⟩ := List.append_eq_nil_iff.1 h.rest_eq
  have hread : r.source.read r.capacity = (failure.elim (.ok []) .error, r.source) := by
    rw [Source.read, if_neg (Nat.ne_of_gt r.capacity_pos), if_pos (List.isEmpty_iff.2 hrest),
      h.failure_eq]
    cases failure <;> rfl
  obtain ⟨buffer, source, capacity, capacity_pos⟩ := r
  dsimp only at hbuffer
  subst hbuffer
  rw [Reader.fill, if_pos List.isEmpty_nil, hread]
  cases failure <;> rfl

theorem rest_eq_take_take_append {seen : Bytes} {most : Nat} (hseen : r.buffer.take most = seen)
    {k : Nat} (hk : k ≤ seen.length) : r.rest = seen.take k ++ (r.discard k).rest := by
  have hle : seen.length ≤ most := hseen ▸ List.length_take_le most r.buffer
  rw [rest_eq_take_append r k, ← hseen, List.take_take, Nat.min_eq_left (Nat.le_trans hk hle)]

/-- What is taken for a line, and what is left after it, does not depend on the pieces that the
bytes come in. -/
theorem Holds.takeLine_eq (h : r.Holds b failure) (most : Nat) :
    (r.takeLine most).1 = (takenLine b failure most).1 ∧
      (r.takeLine most).2.Holds (takenLine b failure most).2 failure := by
  induction most using Nat.strongRecOn generalizing r b with
  | ind most ih =>
      unfold Reader.takeLine
      by_cases hzero : most = 0
      · rw [if_pos hzero, hzero, takenLine_zero]
        exact ⟨rfl, h⟩
      rw [if_neg hzero]
      by_cases hb : b = []
      · subst hb
        rw [h.fill_nil, takenLine_nil hzero]
        cases failure with
        | none =>
            dsimp only [Option.elim]
            rw [(List.append_eq_nil_iff.1 h.rest_eq).1, List.take_nil]
            exact ⟨rfl, h⟩
        | some e => exact ⟨rfl, h⟩
      obtain ⟨r₁, hfill, h₁, hne⟩ := h.fill hb
      rw [hfill]
      dsimp only
      cases hseen : r₁.buffer.take most with
      | nil => exact absurd ((List.take_eq_nil_iff.1 hseen).resolve_left hzero) hne
      | cons x xs =>
          have hlen : (x :: xs).length ≤ most := hseen ▸ List.length_take_le most r₁.buffer
          have hsplit : ∀ k ≤ (x :: xs).length, b = (x :: xs).take k ++ (r₁.discard k).rest :=
            fun k hk => h₁.rest_eq ▸ rest_eq_take_take_append hseen hk
          have hall := hsplit _ (Nat.le_refl _)
          rw [List.take_length] at hall
          dsimp only
          split
          · next hmem =>
            -- the line feed is at hand
            have hidx : b.idxOf lineFeed = (x :: xs).idxOf lineFeed := by
              rw [hall, List.idxOf_append_of_mem hmem]
            have hfound : lineFeed ∈ b.take most := by
              rw [hall, List.take_append, List.take_of_length_le hlen]
              exact List.mem_append_left _ hmem
            have hk : (x :: xs).idxOf lineFeed + 1 ≤ (x :: xs).length :=
              List.idxOf_lt_length_of_mem hmem
            have htake : ((x :: xs).take ((x :: xs).idxOf lineFeed + 1)).length =
                (x :: xs).idxOf lineFeed + 1 := List.length_take_of_le hk
            rw [takenLine, if_pos hfound, hidx, hsplit _ hk, List.take_left' htake,
              List.drop_left' htake]
            exact ⟨rfl, rfl, h₁.failure_eq⟩
          · next hmem =>
            obtain ⟨hresult, hrest⟩ := ih (most - (x :: xs).length)
              (by simp only [List.length_cons]; omega) (r := r₁.discard (x :: xs).length) ⟨rfl,
                h₁.failure_eq⟩
            rw [hall, takenLine_append hmem hlen]
            generalize takeLine _ _ = taken at hresult hrest ⊢
            obtain ⟨e | line, r'⟩ := taken
            · rw [← hresult]
              exact ⟨rfl, hrest⟩
            · rw [← hresult]
              exact ⟨rfl, hrest⟩

end Reader

end HttpDispatch
