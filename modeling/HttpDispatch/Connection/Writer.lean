import HttpDispatch.Error

/-!
# Writers

The outgoing side of a connection, as what has arrived at the peer so far. A peer may go away after
a number of bytes: the writer then takes what there is room for and refuses everything after that. A
flush may fail, too.
-/

namespace HttpDispatch

structure Writer where
  /-- The bytes that have arrived. -/
  written : Bytes := []
  /-- How many bytes the peer takes before it goes away. -/
  limit : Option Nat := none
  flushes : Nat := 0
  flushFailure : Option IoError := none
deriving DecidableEq, Repr

namespace Writer

def accepts (w : Writer) (n : Nat) : Nat :=
  match w.limit with
  | none => n
  | some limit => min (limit - w.written.length) n

def receive (w : Writer) (b : Bytes) : Writer := { w with written := w.written ++ b }

/-- Sends as much of `b` as there is room for, and tells how much that was. It fails if there is
something to send and no room at all. -/
def write (w : Writer) (b : Bytes) : Except IoError Nat × Writer :=
  let n := w.accepts b.length
  if n = 0 ∧ b ≠ [] then (.error .peerClosed, w) else (.ok n, w.receive (b.take n))

/-- Sends all of `b`. If there is not room for all of it, what there is room for is sent and the
rest is refused. -/
def writeAll (w : Writer) (b : Bytes) : Except IoError Unit × Writer :=
  let n := w.accepts b.length
  (if n < b.length then .error .peerClosed else .ok (), w.receive (b.take n))

/-- Asks for everything to be delivered. Only flushes that succeed are counted. -/
def flush (w : Writer) : Except IoError Unit × Writer :=
  match w.flushFailure with
  | some e => (.error e, w)
  | none => (.ok (), { w with flushes := w.flushes + 1 })

@[simp]
theorem written_receive (w : Writer) (b : Bytes) : (w.receive b).written = w.written ++ b := rfl

theorem written_write (w : Writer) (b : Bytes) :
    (w.write b).2.written = w.written ++ b.take (w.accepts b.length) := by
  unfold write
  simp only
  split
  · next h => simp [h.1]
  · rfl

@[simp]
theorem written_writeAll (w : Writer) (b : Bytes) :
    (w.writeAll b).2.written = w.written ++ b.take (w.accepts b.length) := rfl

@[simp]
theorem written_flush (w : Writer) : w.flush.2.written = w.written := by
  unfold flush
  split <;> rfl

end Writer

end HttpDispatch
