import HttpDispatch.EventStream.Session
import HttpDispatch.Proofs.Connection.Writer

/-!
# The flag of an event stream

Whether an event stream has ended is kept twice: the flag is set, and the emitter is shut. As long
as nothing acts on the stream at the same time, a call leaves it in one of two states: it is open,
with the callbacks that were registered waiting (`EventStream.IsOpen`), or it has ended, and they
have all run (`EventStream.HasEnded`). The emitter of an open stream may be shut all the same, if it
was when the stream began; the first call that reaches for it, or for the end of the stream, sets
that right (`EventStream.InStep`).
-/

namespace HttpDispatch

namespace Emitter

@[simp]
theorem isShut_close (e : Emitter) : e.close.2.isShut = true := by
  unfold close isShut
  cases hs : e.state with
  | shut => exact decide_eq_true hs
  | muted => rfl
  | sending =>
      dsimp only
      generalize e.out.flush = r
      obtain ⟨cause | ⟨⟩, out⟩ := r <;> rfl

@[simp]
theorem isShut_iff (e : Emitter) : e.isShut = true ↔ e.state = .shut := decide_eq_true_iff

/-- A block is delivered if the writer takes all of it and can be flushed. Otherwise what the writer
takes of it arrives, and nothing comes after that. -/
theorem emit_cases {e : Emitter} (hs : e.state = .sending) (b : Block) :
    (e.out.taken b.bytes = b.bytes ∧ e.out.flushFailure = none ∧
      e.emit b =
        (.ok (), { e with out := { e.out.receive b.bytes with flushes := e.out.flushes + 1 } })) ∨
    ((e.out.taken b.bytes ≠ b.bytes ∨ e.out.flushFailure ≠ none) ∧
      ∃ cause,
        e.emit b = (.error .closed, e.fail (e.out.receive (e.out.taken b.bytes)) cause)) := by
  have hout : (e.out.writeAll b.bytes).2 = e.out.receive (e.out.taken b.bytes) := rfl
  unfold emit
  rw [hs]
  dsimp only
  cases hw : e.out.writeAll b.bytes with | mk r out =>
  rw [hw] at hout
  dsimp only at hout
  subst hout
  cases r with
  | error cause =>
      have hlt := Writer.accepts_lt_of_writeAll_error (w := e.out) (b := b.bytes) (by rw [hw])
      refine .inr ⟨.inl fun hall => ?_, cause, rfl⟩
      have hlength := congrArg List.length hall
      rw [Writer.taken, List.length_take] at hlength
      omega
  | ok =>
      have hall := Writer.taken_of_writeAll_ok (w := e.out) (b := b.bytes) (by rw [hw])
      rw [hall]
      dsimp only
      cases hf : (e.out.receive b.bytes).flush with | mk r out =>
      cases r with
      | error cause =>
          obtain ⟨hsome, rfl⟩ := Writer.eq_of_flush_error hf
          refine .inr ⟨.inr fun hnone => ?_, cause, rfl⟩
          cases hsome.symm.trans hnone
      | ok =>
          obtain ⟨hnone, rfl⟩ := Writer.eq_of_flush_ok hf
          exact .inl ⟨rfl, hnone, rfl⟩

/-- A block is refused by an emitter that is shut, at the latest when it is refused. -/
theorem isShut_emit (e : Emitter) (b : Block) :
    (e.emit b).2.isShut = true ↔ (e.emit b).1 = .error .closed := by
  rw [isShut_iff]
  cases hs : e.state with
  | shut =>
      rw [emit, hs]
      exact iff_of_true hs rfl
  | muted =>
      rw [emit, hs]
      exact iff_of_false (fun h => nomatch hs.symm.trans h) fun h => nomatch h
  | sending =>
      obtain ⟨-, -, hemit⟩ | ⟨-, cause, hemit⟩ := emit_cases hs b
      · rw [hemit]
        exact iff_of_false (fun h => nomatch hs.symm.trans h) fun h => nomatch h
      · rw [hemit]
        exact iff_of_true rfl rfl

/-- An emitter whose writer can be flushed is shut by a block that does not arrive. -/
theorem isShut_emit_iff_written {e : Emitter} (hs : e.state = .sending)
    (hf : e.out.flushFailure = none) (b : Block) :
    (e.emit b).2.isShut = true ↔ (e.emit b).2.out.written ≠ e.out.written ++ b.bytes := by
  rw [isShut_emit]
  obtain ⟨-, -, h⟩ | ⟨hcause, cause, h⟩ := emit_cases hs b
  · rw [h]
    exact iff_of_false (fun h => nomatch h) fun hne => hne rfl
  · rw [h]
    refine iff_of_true rfl fun hwritten => ?_
    have hmissing := hcause.resolve_right fun hne => hne hf
    exact hmissing (List.append_cancel_left hwritten)

end Emitter

namespace EventStream

variable {κ α β : Type} {s : EventStream κ} {cs : List κ}

@[simp]
theorem Task.run_andThen (t : Task κ α) (f : α → Task κ β) (s : EventStream κ) :
    (t.andThen f).run s = (f (t.run s).1).run (t.run s).2 := by
  induction t generalizing s with
  | done a => rfl
  | act a next ih => exact ih _ _

@[simp]
theorem Task.run_runAll (cs : List κ) (s : EventStream κ) :
    (Task.runAll cs).run s = ((), { s with ran := s.ran ++ cs }) := by
  induction cs generalizing s with
  | nil => rw [List.append_nil]; rfl
  | cons c cs ih =>
      have hrest := ih { s with ran := s.ran ++ [c] }
      rw [List.append_assoc] at hrest
      exact hrest

/-- The stream has not been closed: the callbacks are waiting, and so is the session. -/
structure IsOpen (s : EventStream κ) (cs : List κ) : Prop where
  closed : s.closed = false
  callbacks : s.callbacks = cs
  ran : s.ran = []
  armed : s.armed = true
  signals : s.signals = 0

/-- The stream has been closed: nothing is sent any more, each callback has run once, and the
session was released once. -/
structure HasEnded (s : EventStream κ) (cs : List κ) : Prop where
  closed : s.closed = true
  isShut : s.emitter.isShut = true
  callbacks : s.callbacks = []
  ran : s.ran = cs
  signals : s.signals = 1

/-- Flag and emitter tell the same of an event stream, and all has happened that depends on it. -/
def InStep (s : EventStream κ) (cs : List κ) : Prop :=
  s.IsOpen cs ∧ s.emitter.isShut = false ∨ s.HasEnded cs

theorem IsOpen.run_close (h : s.IsOpen cs) (id : RequestId) :
    ((Task.close id).run s).2.HasEnded cs := by
  have hsignals : s.signals + 1 = 1 := by rw [h.signals]
  have hran : s.ran ++ s.callbacks = cs := by
    rw [h.ran, h.callbacks]
    rfl
  simp only [Task.close, Task.run, perform, h.closed, Task.run_andThen, Task.run_runAll, h.armed,
    Bool.not_true, Bool.false_eq_true, if_false]
  split
  · exact ⟨rfl, s.emitter.isShut_close, rfl, hran, hsignals⟩
  · exact ⟨rfl, s.emitter.isShut_close, rfl, hran, hsignals⟩

theorem run_close_of_closed (h : s.closed = true) (id : RequestId) :
    (Task.close id).run s = ((), s) := by
  have hs : { s with closed := true } = s := by
    cases s
    cases h
    rfl
  simp only [Task.close, Task.run, perform, h, hs]

theorem run_send_of_closed (h : s.closed = true) (id : RequestId) (b : Emitter.Block) :
    (Task.send id b).run s = (.error .closed, s) := by
  simp only [Task.send, Task.run, perform, h]

/-- After a block was to be sent, flag and emitter tell the same, whatever they told before. -/
theorem IsOpen.run_send (h : s.IsOpen cs) (id : RequestId) (b : Emitter.Block) :
    ((Task.send id b).run s).2.InStep cs := by
  have hshut := s.emitter.isShut_emit b
  have hemit : ∀ e, ({ s with emitter := e } : EventStream κ).IsOpen cs := fun e =>
    ⟨h.closed, h.callbacks, h.ran, h.armed, h.signals⟩
  unfold Task.send Task.run perform
  dsimp only
  rw [h.closed]
  dsimp only
  unfold Task.run perform
  dsimp only
  generalize s.emitter.emit b = r at hshut
  obtain ⟨⟨⟩ | ⟨⟩, e⟩ := r
  · dsimp only
    rw [Task.run_andThen]
    exact .inr ((hemit e).run_close id)
  · refine .inl ⟨hemit e, ?_⟩
    rw [Bool.eq_false_iff]
    intro hs
    cases hshut.1 hs

theorem IsOpen.run_onClose (h : s.IsOpen cs) (c : κ) :
    ((Task.onClose c).run s).2 = { s with callbacks := cs ++ [c] } := by
  simp only [Task.onClose, Task.run, perform, h.closed, h.callbacks, Bool.false_eq_true, if_false]

theorem run_onClose_of_closed (h : s.closed = true) (c : κ) :
    ((Task.onClose c).run s).2 = { s with ran := s.ran ++ [c] } := by
  simp only [Task.onClose, Task.run, perform, h, if_true]

/-!
## Histories
-/

inductive Op (κ : Type) where
  /-- Something is asked of the session or of a client. -/
  | call (c : Call κ)
  /-- The session goes. -/
  | drop

def Op.task (id : RequestId) : Op κ → Task κ (Except StreamEnded Unit)
  | .call c => c.task id
  | .drop => (Task.drop id).andThen fun _ => .done (.ok ())

def Op.callbacks : Op κ → List κ
  | .call (.onClose c) => [c]
  | .call _ | .drop => []

inductive Use (κ : Type) where
  | op (o : Op κ)
  /-- From now on the peer takes another number of bytes, and flushing fails or does not. -/
  | turn (limit : Option Nat) (flushFailure : Option IoError)

/-- The stream on another kind of writer, which has been sent the same. -/
def turn (s : EventStream κ) (limit : Option Nat) (flushFailure : Option IoError) : EventStream κ :=
  { s with emitter := { s.emitter with out := { s.emitter.out with limit, flushFailure } } }

def use (s : EventStream κ) : Use κ → EventStream κ
  | .op (.call c) => (s.call c).2
  | .op .drop => s.drop
  | .turn limit flushFailure => s.turn limit flushFailure

def useAll (s : EventStream κ) : List (Use κ) → EventStream κ
  | [] => s
  | u :: us => useAll (s.use u) us

def Use.callbacks : Use κ → List κ
  | .op o => o.callbacks
  | .turn _ _ => []

/-- It sends something, or closes the stream. -/
def Use.Reaches : Use κ → Prop
  | .op (.call (.onClose _)) | .turn _ _ => False
  | .op (.call _) | .op .drop => True

theorem InStep.closed_iff_isShut (h : s.InStep cs) : s.closed = true ↔ s.emitter.isShut = true := by
  obtain ⟨hopen, hs⟩ | h := h
  · rw [hopen.closed, hs]
  · rw [h.closed, h.isShut]

theorem HasEnded.use (h : s.HasEnded cs) (u : Use κ) : (s.use u).HasEnded (cs ++ u.callbacks) := by
  have hsend : ∀ b, ((Task.send s.id b).run s).2.HasEnded (cs ++ []) := by
    intro b
    rw [run_send_of_closed h.closed, List.append_nil]
    exact h
  have hclose : ((Task.close s.id).run s).2.HasEnded (cs ++ []) := by
    rw [run_close_of_closed h.closed, List.append_nil]
    exact h
  obtain (c | -) | ⟨limit, flushFailure⟩ := u
  · cases c with
    | send e => exact hsend _
    | comment t => exact hsend _
    | onClose c =>
        rw [EventStream.use, call, Call.task, Task.run_andThen]
        change ((Task.onClose c).run s).2.HasEnded (cs ++ [c])
        rw [run_onClose_of_closed h.closed, ← h.ran]
        exact ⟨h.closed, h.isShut, h.callbacks, rfl, h.signals⟩
    | close =>
        rw [EventStream.use, call, Call.task, Task.run_andThen]
        exact hclose
  · obtain ⟨hclosed, hshut, hcallbacks, hran, hsignals⟩ := hclose
    rw [EventStream.use, EventStream.drop, Task.drop, Task.run_andThen]
    exact ⟨hclosed, hshut, hcallbacks, hran, hsignals⟩
  · exact ⟨h.closed, h.isShut, h.callbacks, h.ran.trans (List.append_nil cs).symm, h.signals⟩

/-- What reaches for the emitter leaves flag and emitter in step. -/
theorem IsOpen.use_of_reaches (h : s.IsOpen cs) {u : Use κ} (hu : u.Reaches) :
    (s.use u).InStep (cs ++ u.callbacks) := by
  have hsend : ∀ b, ((Task.send s.id b).run s).2.InStep (cs ++ []) := by
    intro b
    rw [List.append_nil]
    exact h.run_send s.id b
  have hclose : ((Task.close s.id).run s).2.HasEnded (cs ++ []) := by
    rw [List.append_nil]
    exact h.run_close s.id
  obtain (c | -) | ⟨limit, flushFailure⟩ := u
  · cases c with
    | send e => exact hsend _
    | comment t => exact hsend _
    | onClose c => exact hu.elim
    | close =>
        rw [EventStream.use, call, Call.task, Task.run_andThen]
        exact .inr hclose
  · obtain ⟨hclosed, hshut, hcallbacks, hran, hsignals⟩ := hclose
    rw [EventStream.use, EventStream.drop, Task.drop, Task.run_andThen]
    exact .inr ⟨hclosed, hshut, hcallbacks, hran, hsignals⟩
  · exact hu.elim

/-- What does not leaves both as they are. -/
theorem IsOpen.use_of_not_reaches (h : s.IsOpen cs) {u : Use κ} (hu : ¬ u.Reaches) :
    (s.use u).IsOpen (cs ++ u.callbacks) ∧ (s.use u).emitter.isShut = s.emitter.isShut := by
  obtain (c | -) | ⟨limit, flushFailure⟩ := u
  · cases c with
    | onClose c =>
        rw [EventStream.use, call, Call.task, Task.run_andThen]
        change ((Task.onClose c).run s).2.IsOpen (cs ++ [c]) ∧
          ((Task.onClose c).run s).2.emitter.isShut = s.emitter.isShut
        rw [h.run_onClose]
        exact ⟨⟨h.closed, rfl, h.ran, h.armed, h.signals⟩, rfl⟩
    | _ => exact absurd trivial hu
  · exact absurd trivial hu
  · exact ⟨⟨h.closed, h.callbacks.trans (List.append_nil cs).symm, h.ran, h.armed, h.signals⟩, rfl⟩

theorem InStep.use (h : s.InStep cs) (u : Use κ) : (s.use u).InStep (cs ++ u.callbacks) := by
  obtain ⟨hopen, hs⟩ | hended := h
  · by_cases hu : u.Reaches
    · exact hopen.use_of_reaches hu
    · obtain ⟨hopen', hs'⟩ := hopen.use_of_not_reaches hu
      exact .inl ⟨hopen', hs'.trans hs⟩
  · exact .inr (hended.use u)

theorem InStep.useAll (h : s.InStep cs) (us : List (Use κ)) :
    (s.useAll us).InStep (cs ++ us.flatMap Use.callbacks) := by
  induction us generalizing s cs with
  | nil =>
      rw [List.flatMap_nil, List.append_nil]
      exact h
  | cons u us ih =>
      rw [List.flatMap_cons, ← List.append_assoc]
      exact ih (h.use u)

/-- A stream that begins with an emitter that is shut already is set right by the first use that
reaches for it, and not before. -/
theorem IsOpen.useAll (h : s.IsOpen cs) (us : List (Use κ)) :
    ((∃ u ∈ us, u.Reaches) → (s.useAll us).InStep (cs ++ us.flatMap Use.callbacks)) ∧
      ((¬ ∃ u ∈ us, u.Reaches) → (s.useAll us).IsOpen (cs ++ us.flatMap Use.callbacks) ∧
        (s.useAll us).emitter.isShut = s.emitter.isShut) := by
  induction us generalizing s cs with
  | nil =>
      rw [List.flatMap_nil, List.append_nil]
      exact ⟨fun ⟨_, hu, _⟩ => absurd hu List.not_mem_nil, fun _ => ⟨h, rfl⟩⟩
  | cons u us ih =>
      rw [List.flatMap_cons, ← List.append_assoc]
      by_cases hu : u.Reaches
      · exact ⟨fun _ => (h.use_of_reaches hu).useAll us,
          fun hnone => absurd ⟨u, List.mem_cons_self, hu⟩ hnone⟩
      · obtain ⟨hopen, hs⟩ := h.use_of_not_reaches hu
        obtain ⟨hreaches, hnone⟩ := ih hopen
        have hmem : (∃ v ∈ u :: us, v.Reaches) ↔ ∃ v ∈ us, v.Reaches := by
          simp only [List.mem_cons, exists_eq_or_imp, hu, false_or]
        rw [hmem]
        exact ⟨hreaches, fun h' => ⟨(hnone h').1, (hnone h').2.trans hs⟩⟩

end EventStream

end HttpDispatch
