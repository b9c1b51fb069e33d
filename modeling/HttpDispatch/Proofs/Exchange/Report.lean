import HttpDispatch.Exchange.Basic
import HttpDispatch.Proofs.Agreement

/-!
# The report of an exchange

An exchange carries the report of what has happened on it, and nothing that is done to the exchange
reads it: from exchanges that differ in their reports only (`Exchange.unreported`), the outcomes of
every operation agree.
-/

namespace HttpDispatch.Exchange

variable {α ε : Type} {x y : Exchange}

def unreported (x : Exchange) : Exchange := { x with log := [] }

theorem exists_log (h : x.unreported = y.unreported) : ∃ l, y = { x with log := l } := by
  refine ⟨y.log, ?_⟩
  have hy : y = { y.unreported with log := y.log } := rfl
  rw [hy, ← h]
  rfl

theorem unreported_withPending (h : x.unreported = y.unreported) (f : Headers → Headers) :
    (x.withPending f).unreported = (y.withPending f).unreported :=
  congrArg (·.withPending f) h

theorem agrees_setStatus (s : Status) (h : x.unreported = y.unreported) :
    Agrees unreported (x.setStatus s) (y.setStatus s) := by
  obtain ⟨l, rfl⟩ := exists_log h
  exact .ite (fun _ => .of_eq h) fun _ => .of_eq rfl

theorem agrees_sendHeaders (h : x.unreported = y.unreported) :
    Agrees unreported x.sendHeaders y.sendHeaders := by
  obtain ⟨l, rfl⟩ := exists_log h
  refine .ite (fun _ => .of_eq h) fun _ => .ite (fun _ => .of_eq h) fun _ => ?_
  simp only
  cases x.transport with
  | memory => exact .of_eq rfl
  | wire =>
      simp only
      generalize x.out.writeAll _ = r
      rcases r with ⟨e | ⟨⟩, out⟩
      · exact .of_eq rfl
      · exact .of_eq rfl

theorem output_eq (h : x.unreported = y.unreported) : x.output = y.output :=
  (congrArg output h :)

theorem agrees_onWriter (f : Writer → Attempt Writer IoError α) (h : x.unreported = y.unreported) :
    Agrees unreported (x.onWriter f) (y.onWriter f) := by
  obtain ⟨l, rfl⟩ := exists_log h
  exact ⟨rfl, rfl⟩

theorem agrees_write (b : Bytes) (h : x.unreported = y.unreported) :
    Agrees unreported (x.write b) (y.write b) :=
  agrees_onWriter _ h

theorem agrees_writeAll (b : Bytes) (h : x.unreported = y.unreported) :
    Agrees unreported (x.writeAll b) (y.writeAll b) :=
  agrees_onWriter _ h

theorem agrees_flush (h : x.unreported = y.unreported) : Agrees unreported x.flush y.flush :=
  agrees_onWriter _ h

theorem agrees_detach (h : x.unreported = y.unreported) :
    Agrees unreported x.detach y.detach := by
  have ho := output_eq h
  obtain ⟨l, rfl⟩ := exists_log h
  unfold detach
  rw [ho]
  split
  · exact .of_eq h
  · exact .of_eq rfl

theorem agrees_readBody (h : x.unreported = y.unreported) :
    Agrees unreported x.readBody y.readBody := by
  obtain ⟨l, rfl⟩ := exists_log h
  exact ⟨rfl, rfl⟩

theorem agrees_close (h : x.unreported = y.unreported) : Agrees unreported x.close y.close := by
  obtain ⟨l, rfl⟩ := exists_log h
  cases x with
  | mk transport =>
      cases transport with
      | memory => exact .of_eq rfl
      | wire => exact .ite (fun _ => .of_eq rfl) fun _ => agrees_flush rfl

end HttpDispatch.Exchange
