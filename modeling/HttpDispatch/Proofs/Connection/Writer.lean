import HttpDispatch.Connection.Writer

/-!
# What arrives of what is written

A writer delivers a beginning of what it is given (`Writer.taken`), and it makes no difference in
how many pieces that is given. A writer without a limit delivers everything; one on which flushing
succeeds as well is reliable (`Writer.Reliable`).
-/

namespace HttpDispatch.Writer

/-- What arrives of `b` if all of it is to be sent. -/
def taken (w : Writer) (b : Bytes) : Bytes := b.take (w.accepts b.length)

@[simp]
theorem taken_nil (w : Writer) : w.taken [] = [] := List.take_nil

theorem taken_prefix (w : Writer) (b : Bytes) : w.taken b <+: b := List.take_prefix _ _

theorem taken_append (w : Writer) (a b : Bytes) :
    w.taken (a ++ b) = w.taken a ++ (w.receive (w.taken a)).taken b := by
  unfold taken accepts receive
  cases w.limit with
  | none => simp only [List.take_length]
  | some limit =>
      simp only [List.length_append, List.length_take]
      rw [List.take_append]
      congr 1
      · rw [List.take_eq_take_iff]
        omega
      · rw [List.take_eq_take_iff]
        omega

theorem taken_congr {w w' : Writer} (hlimit : w'.limit = w.limit)
    (hwritten : w'.written = w.written) (b : Bytes) : w'.taken b = w.taken b := by
  unfold taken accepts
  rw [hlimit, hwritten]

theorem writeAll_of_limit_eq_none {w : Writer} (h : w.limit = none) (b : Bytes) :
    w.writeAll b = (.ok (), w.receive b) := by
  have haccepts : w.accepts b.length = b.length := by
    unfold accepts
    rw [h]
  unfold writeAll
  simp only
  rw [haccepts, if_neg (Nat.lt_irrefl _), List.take_length]

theorem write_of_limit_eq_none {w : Writer} (h : w.limit = none) (b : Bytes) :
    w.write b = (.ok b.length, w.receive b) := by
  have haccepts : w.accepts b.length = b.length := by
    unfold accepts
    rw [h]
  unfold write
  simp only
  rw [haccepts, if_neg (by simp), List.take_length]

theorem taken_of_writeAll_ok {w : Writer} {b : Bytes} (h : (w.writeAll b).1 = .ok ()) :
    w.taken b = b := by
  unfold writeAll at h
  dsimp only at h
  split at h
  · cases h
  · next hlt => exact List.take_of_length_le (Nat.le_of_not_lt hlt)

theorem receive_nil (w : Writer) : w.receive [] = w := by
  rw [receive, List.append_nil]

theorem receive_receive (w : Writer) (a b : Bytes) :
    (w.receive a).receive b = w.receive (a ++ b) := by
  rw [receive, receive, List.append_assoc]
  rfl

theorem eq_receive_of_writeAll_ok {w w' : Writer} {b : Bytes} (h : w.writeAll b = (.ok (), w')) :
    w' = w.receive b := by
  have hall := taken_of_writeAll_ok (w := w) (b := b) (by rw [h])
  have hreceive : (w.writeAll b).2 = w.receive (w.taken b) := rfl
  rwa [h, hall] at hreceive

theorem accepts_lt_of_writeAll_error {w : Writer} {b : Bytes} {e : IoError}
    (h : (w.writeAll b).1 = .error e) : w.accepts b.length < b.length := by
  unfold writeAll at h
  dsimp only at h
  split at h
  · assumption
  · cases h

theorem taken_append_of_accepts_lt {w : Writer} {a : Bytes} (h : w.accepts a.length < a.length)
    (b : Bytes) : w.taken (a ++ b) = w.taken a := by
  unfold taken accepts at *
  cases hlimit : w.limit with
  | none =>
      rw [hlimit] at h
      exact absurd h (Nat.lt_irrefl _)
  | some limit =>
      rw [hlimit] at h
      dsimp only at h ⊢
      rw [List.length_append, List.take_append_of_le_length (by omega), List.take_eq_take_iff]
      omega

theorem eq_of_flush_ok {w w' : Writer} (h : w.flush = (.ok (), w')) :
    w.flushFailure = none ∧ w' = { w with flushes := w.flushes + 1 } := by
  unfold flush at h
  split at h
  · cases h
  · next hnone =>
    cases h
    exact ⟨hnone, rfl⟩

theorem eq_of_flush_error {w w' : Writer} {e : IoError} (h : w.flush = (.error e, w')) :
    w.flushFailure = some e ∧ w' = w := by
  unfold flush at h
  split at h
  · next hsome =>
    cases h
    exact ⟨hsome, rfl⟩
  · cases h

structure Reliable (w : Writer) : Prop where
  limit : w.limit = none
  flushFailure : w.flushFailure = none

theorem Reliable.taken_eq {w : Writer} (h : w.Reliable) (b : Bytes) : w.taken b = b := by
  unfold taken accepts
  rw [h.limit, List.take_length]

theorem Reliable.receive {w : Writer} (h : w.Reliable) (b : Bytes) : (w.receive b).Reliable :=
  ⟨h.limit, h.flushFailure⟩

theorem Reliable.flushed {w : Writer} (h : w.Reliable) :
    ({ w with flushes := w.flushes + 1 } : Writer).Reliable :=
  ⟨h.limit, h.flushFailure⟩

end HttpDispatch.Writer
