import HttpDispatch.Connection.Source

/-!
# What a reader has still to deliver

`Reader.Holds`: the bytes that come from a reader, in whatever pieces, and how it ends after them.
As long as there are bytes, filling the buffer and reading succeed, and take nothing but the next
bytes away.
-/

namespace HttpDispatch

namespace Source

theorem failure_read (s : Source) (n : Nat) : (s.read n).2.failure = s.failure := by
  unfold read
  split
  · rfl
  split
  · split <;> rfl
  · rfl

theorem length_le_of_read_ok {s s' : Source} {n : Nat} {b : Bytes} (h : s.read n = (.ok b, s')) :
    b.length ≤ n := by
  unfold read at h
  split at h
  · cases h
    exact Nat.zero_le n
  split at h
  · split at h <;> cases h
    exact Nat.zero_le n
  · cases h
    exact Nat.le_trans (List.length_take_le _ _) (s.portionSize_le n)

theorem exists_read {s : Source} {n : Nat} (hn : 0 < n) (h : s.rest ≠ []) :
    ∃ b s', s.read n = (.ok b, s') ∧ b ≠ [] ∧ b.length ≤ n := by
  have hread : s.read n = (.ok (s.rest.take (s.portionSize n)),
      { s with position := s.position + s.portionSize n, reads := s.reads + 1 }) := by
    rw [read, if_neg (Nat.ne_of_gt hn), if_neg (by simpa using h)]
  refine ⟨_, _, hread, ?_, ?_⟩
  · rw [Ne, List.take_eq_nil_iff]
    exact not_or.2 ⟨Nat.ne_of_gt (s.portionSize_pos hn h), h⟩
  · exact Nat.le_trans (List.length_take_le _ _) (s.portionSize_le n)

theorem eq_of_read_nil {s s' : Source} {n : Nat} (hn : 0 < n) (h : s.read n = (.ok [], s')) :
    s' = s ∧ s.rest = [] ∧ s.failure = none := by
  have hrest : s.rest = [] := by
    refine Classical.byContradiction fun hne => ?_
    obtain ⟨b, _, hread, hb, -⟩ := exists_read hn hne
    rw [h] at hread
    cases hread
    exact hb rfl
  rw [read, if_neg (Nat.ne_of_gt hn), if_pos (List.isEmpty_iff.2 hrest)] at h
  cases hf : s.failure with
  | none =>
      rw [hf] at h
      cases h
      exact ⟨rfl, hrest, rfl⟩
  | some e =>
      rw [hf] at h
      cases h

theorem reads_le_of_read {s s' : Source} {n : Nat} {r : Except IoError Bytes}
    (h : s.read n = (r, s')) : s'.reads ≤ s.reads + 1 := by
  unfold read at h
  split at h
  · cases h
    exact Nat.le_succ _
  · split at h
    · split at h <;> cases h <;> exact Nat.le_succ _
    · cases h
      exact Nat.le_refl _

end Source

namespace Reader

/-- The bytes that `r` has still to deliver are `b`, and then it ends, or fails as
`failure` says. -/
structure Holds (r : Reader) (b : Bytes) (failure : Option IoError) : Prop where
  rest_eq : r.rest = b
  failure_eq : r.source.failure = failure

variable {r : Reader} {b : Bytes} {failure : Option IoError}

theorem rest_eq_take_append (r : Reader) (n : Nat) :
    r.rest = r.buffer.take n ++ (r.discard n).rest := by
  rw [rest, rest, discard, ← List.append_assoc, List.take_append_drop]

theorem Holds.source_rest_ne_nil (h : r.Holds b failure) (hbuffer : r.buffer = []) (hb : b ≠ []) :
    r.source.rest ≠ [] := by
  have hrest := h.rest_eq
  rw [rest, hbuffer, List.nil_append] at hrest
  rwa [hrest]

theorem Holds.fill (h : r.Holds b failure) (hb : b ≠ []) :
    ∃ r', r.fill = (.ok (), r') ∧ r'.Holds b failure ∧ r'.buffer ≠ [] := by
  unfold Reader.fill
  split
  · next hempty =>
    have hnil : r.buffer = [] := List.isEmpty_iff.1 hempty
    obtain ⟨c, s, hread, hc, _⟩ :=
      Source.exists_read r.capacity_pos (h.source_rest_ne_nil hnil hb)
    rw [hread]
    refine ⟨_, rfl, ⟨?_, ?_⟩, hc⟩
    · rw [← h.rest_eq, rest, rest, hnil, Source.rest_eq_of_read_ok hread, List.nil_append]
    · rw [← h.failure_eq, ← Source.failure_read r.source r.capacity, hread]
  · next hempty => exact ⟨r, rfl, h, fun hnil => hempty (List.isEmpty_iff.2 hnil)⟩

/-- As long as there are bytes, some of them are read. -/
theorem Holds.read (h : r.Holds b failure) (hb : b ≠ []) {n : Nat} (hn : 0 < n) :
    ∃ c b' r', r.read n = (.ok c, r') ∧ b = c ++ b' ∧ c ≠ [] ∧
      c.length ≤ n ∧ r'.Holds b' failure := by
  unfold Reader.read
  split
  · next hdirect =>
    have hnil : r.buffer = [] := List.isEmpty_iff.1 (Bool.and_eq_true_iff.1 hdirect).1
    obtain ⟨c, s, hread, hc, hlen⟩ := Source.exists_read hn (h.source_rest_ne_nil hnil hb)
    rw [hread]
    refine ⟨c, s.rest, _, rfl, ?_, hc, hlen, ?_, ?_⟩
    · rw [← h.rest_eq, rest, hnil, Source.rest_eq_of_read_ok hread, List.nil_append]
    · rw [rest, hnil, List.nil_append]
    · rw [← h.failure_eq, ← Source.failure_read r.source n, hread]
  · obtain ⟨r₁, hfill, h₁, hne⟩ := h.fill hb
    rw [hfill]
    refine ⟨_, (r₁.discard n).rest, _, rfl, ?_, ?_, List.length_take_le _ _, rfl, h₁.failure_eq⟩
    · rw [← h₁.rest_eq, ← rest_eq_take_append]
    · rw [Ne, List.take_eq_nil_iff]
      exact not_or.2 ⟨Nat.ne_of_gt hn, hne⟩

theorem Holds.read_nil (h : r.Holds [] none) (n : Nat) : r.read n = (.ok [], r) := by
  obtain ⟨hbuffer, hrest⟩ := List.append_eq_nil_iff.1 h.rest_eq
  have hsource : ∀ k, r.source.read k = (.ok [], r.source) := by
    intro k
    unfold Source.read
    split
    · rfl
    · rw [if_pos (List.isEmpty_iff.2 hrest), h.failure_eq]
  obtain ⟨buffer, source, capacity, capacity_pos⟩ := r
  dsimp only at hbuffer
  subst hbuffer
  unfold Reader.read
  split
  · rw [hsource]
  · rw [Reader.fill, if_pos List.isEmpty_nil, hsource]
    dsimp only [discard]
    rw [List.take_nil, List.drop_nil]

end Reader

end HttpDispatch
