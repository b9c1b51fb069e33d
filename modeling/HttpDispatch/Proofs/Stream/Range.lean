import HttpDispatch.Proofs.Stream.Begun
import HttpDispatch.Proofs.Stream.Pieces

/-!
# What is copied of a part

A part that a request can have lies within the resource (`RangeRequest.bounds_of_read`). Copying it
delivers a beginning of what the source holds there, in whatever pieces it comes and whichever call
fails; a copy that counts as completed has delivered all of it (`Copy.delivers_run`).
-/

namespace HttpDispatch

namespace RangeRequest

theorem bounds_of_ofSpec {first last : String} {total : Nat} {r : ByteRange}
    (h : ofSpec first last total = part r) : r.first ≤ r.last ∧ r.last < total := by
  have hsuffix : ∀ count, ofSuffix count total = part r → r.first ≤ r.last ∧ r.last < total := by
    intro count h
    unfold ofSuffix at h
    split at h
    · cases h
    · next hne =>
      cases h
      simp only [Bool.or_eq_true, decide_eq_true_eq, not_or] at hne
      dsimp only
      omega
  have hbounds : ∀ a b, ofBounds a b total = part r → r.first ≤ r.last ∧ r.last < total := by
    intro a b h
    unfold ofBounds at h
    split at h
    · cases h
    · next hany =>
      split at h
      · cases h
      · next hlt =>
        cases h
        cases b with
        | none =>
            dsimp only
            omega
        | some b =>
            have hab : ¬ b < a := by simpa using hany
            dsimp only
            omega
  unfold ofSpec at h
  split at h
  · split at h
    · cases h
    · exact hsuffix _ h
  · split at h
    · cases h
    · split at h
      · exact hbounds _ _ h
      · split at h
        · cases h
        · exact hbounds _ _ h

/-- A part that is asked for and can be had lies within the resource. -/
theorem bounds_of_read {field : Option String} {total : Nat} {r : ByteRange}
    (h : read field total = part r) : r.first ≤ r.last ∧ r.last < total := by
  unfold read at h
  split at h
  · cases h
  · split at h
    · cases h
    · exact bounds_of_ofSpec h

end RangeRequest

namespace Copy

/-- What has arrived of a part that is copied is a beginning of what the source holds there; if the
copy counts as completed, the source holds as much as was asked for, and all of it has arrived. -/
theorem delivers_run (c : Copy) (total piece remaining written : Nat) :
    ∃ b, b <+: c.source.rest.take remaining ∧
      (c.run total piece remaining written).2.out.written = c.out.written ++ b ∧
      ∀ r, (c.run total piece remaining written).1 = .ok r → r.completed = true →
        b = c.source.rest.take remaining ∧ b.length = remaining := by
  obtain ⟨pieces, d, left, hpasses, hends⟩ := exists_passes_run c total piece remaining written
  obtain ⟨hwritten, hall, -⟩ := hpasses.arrives hends (Nat.succ_pos piece)
  have htaken := c.out.taken_prefix (c.source.rest.take remaining)
  refine ⟨_, htaken, hwritten, fun r hr hcompleted => ?_⟩
  have hlength := hall.2 ((hends.of_ok hr).2.1.1 hcompleted).1
  refine ⟨htaken.eq_of_length_le ?_, hlength⟩
  rw [hlength]
  exact List.length_take_le _ _

theorem run_of_reliable (c : Copy) (hw : c.out.limit = none) (hf : c.out.flushFailure = none)
    (total piece remaining written : Nat) (hlen : remaining ≤ c.source.rest.length) :
    (c.run total piece remaining written).1 = .ok ⟨written + remaining, true⟩ := by
  have haccepts : c.out.accepts remaining = remaining := by
    unfold Writer.accepts
    rw [hw]
  exact (c.run_of_accepts total piece written hlen haccepts hf).1

end Copy

end HttpDispatch
