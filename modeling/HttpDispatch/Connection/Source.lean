import HttpDispatch.Error

/-!
# Sources

Where bytes are read from. A source delivers its bytes in pieces of its own choosing, and then ends
or fails. A buffered reader keeps a piece at hand and looks at it before it asks for more; a bounded
body stops after a number of bytes.
-/

namespace HttpDispatch

structure Source where
  /-- All the bytes there are, whatever has been read already. -/
  data : Bytes
  position : Nat := 0
  /-- The most that the read of a given number delivers, less one. -/
  portion : Nat → Option Nat := fun _ => none
  reads : Nat := 0
  failure : Option IoError := none
  seekFailure : Option IoError := none

namespace Source

def rest (s : Source) : Bytes := s.data.drop s.position

/-- How many bytes the next read into a buffer of `n` bytes delivers. -/
def portionSize (s : Source) (n : Nat) : Nat :=
  match s.portion s.reads with
  | none => min n s.rest.length
  | some most => min (min n s.rest.length) (most + 1)

/-- Reads into a buffer of `n` bytes. At least one byte is delivered if there is one and room for
it. -/
def read (s : Source) (n : Nat) : Except IoError Bytes × Source :=
  if n = 0 then (.ok [], s)
  else if s.rest.isEmpty then
    match s.failure with
    | some e => (.error e, s)
    | none => (.ok [], s)
  else
    let k := s.portionSize n
    (.ok (s.rest.take k), { s with position := s.position + k, reads := s.reads + 1 })

/-- Moves to a position counted from the first byte, which may lie after the last. -/
def seek (s : Source) (position : Nat) : Except IoError Unit × Source :=
  match s.seekFailure with
  | some e => (.error e, s)
  | none => (.ok (), { s with position })

theorem portionSize_le (s : Source) (n : Nat) : s.portionSize n ≤ n := by
  unfold portionSize
  split <;> omega

theorem portionSize_pos (s : Source) {n : Nat} (hn : 0 < n) (h : s.rest ≠ []) :
    0 < s.portionSize n := by
  have : 0 < s.rest.length := List.length_pos_iff.2 h
  unfold portionSize
  split <;> omega

theorem rest_eq_of_read_ok {s s' : Source} {n : Nat} {b : Bytes} (h : s.read n = (.ok b, s')) :
    s.rest = b ++ s'.rest := by
  unfold read at h
  split at h
  · cases h; rfl
  split at h
  · split at h
    · cases h
    · cases h
      rfl
  · cases h
    simp only [rest, ← List.drop_drop]
    exact (List.take_append_drop _ _).symm

theorem eq_of_read_error {s s' : Source} {n : Nat} {e : IoError} (h : s.read n = (.error e, s')) :
    s' = s ∧ s.rest = [] ∧ s.failure = some e := by
  unfold read at h
  split at h
  · cases h
  split at h
  · next hr =>
    split at h
    · next hf => cases h; exact ⟨rfl, by simpa using hr, hf⟩
    · cases h
  · cases h

end Source

def Reader.defaultCapacity : Nat := 8192

theorem Reader.defaultCapacity_pos : 0 < Reader.defaultCapacity := by decide

/-- A reader that keeps a piece of its source at hand. -/
structure Reader where
  buffer : Bytes := []
  source : Source
  /-- The most that is kept at hand. -/
  capacity : Nat := Reader.defaultCapacity
  capacity_pos : 0 < capacity := by exact Reader.defaultCapacity_pos

namespace Reader

def rest (r : Reader) : Bytes := r.buffer ++ r.source.rest

/-- Makes sure that there are bytes at hand, unless there are none left. -/
def fill (r : Reader) : Except IoError Unit × Reader :=
  if r.buffer.isEmpty then
    match r.source.read r.capacity with
    | (.ok b, s) => (.ok (), { r with buffer := b, source := s })
    | (.error e, s) => (.error e, { r with source := s })
  else (.ok (), r)

def discard (r : Reader) (n : Nat) : Reader := { r with buffer := r.buffer.drop n }

/-- Reads into a buffer of `n` bytes: what is at hand, or else one piece of the source. A large
buffer is filled directly. -/
def read (r : Reader) (n : Nat) : Except IoError Bytes × Reader :=
  if r.buffer.isEmpty && r.capacity ≤ n then
    match r.source.read n with
    | (result, s) => (result, { r with source := s })
  else
    match r.fill with
    | (.error e, r) => (.error e, r)
    | (.ok (), r) => (.ok (r.buffer.take n), r.discard n)

theorem rest_discard (r : Reader) (n : Nat) (h : n ≤ r.buffer.length) :
    (r.discard n).rest = r.rest.drop n := by
  simp [discard, rest, List.drop_append_of_le_length h]

theorem rest_fill (r : Reader) : r.fill.2.rest = r.rest := by
  unfold fill
  split
  · next h =>
    have h₀ : r.buffer = [] := by simpa using h
    split
    · next hr => simp [rest, h₀, Source.rest_eq_of_read_ok hr]
    · next hr => simp [rest, (Source.eq_of_read_error hr).1]
  · rfl

end Reader

end HttpDispatch
