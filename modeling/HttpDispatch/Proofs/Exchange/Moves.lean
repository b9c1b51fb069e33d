import HttpDispatch.Exchange.Basic
import Mathlib.Logic.Relation

/-!
# What an exchange may go through

Everything that is done to an exchange while its request is dispatched, up to its release, is a
sequence of moves: the status and the pending fields change until the head is sent, the head is
sent, something is written behind it, or a part changes that the client does not see. Each move
carries the condition under which it is made; a response to a request for the head only is never
written to after its head.

Laws about every use of an exchange are inductions over `Exchange.Moves`. What the head is once it
has been sent, that nothing was written before it, and that sending it succeeds at most once
(`Exchange.Orderly`) are such laws.
-/

namespace HttpDispatch

inductive Writer.Move : Writer → Writer → Prop
  | write (w : Writer) (b : Bytes) : Move w (w.write b).2
  | writeAll (w : Writer) (b : Bytes) : Move w (w.writeAll b).2
  | flush (w : Writer) : Move w w.flush.2

abbrev Writer.Moves : Writer → Writer → Prop := Relation.ReflTransGen Writer.Move

inductive Exchange.Move : Exchange → Exchange → Prop
  /-- A status is set before the head is sent. -/
  | status (x : Exchange) (s : Status) (h : x.headersSent = false) : Move x { x with status := s }
  /-- The pending fields change before the head is sent. -/
  | pending (x : Exchange) (f : Headers → Headers) (h : x.headersSent = false) :
    Move x (x.withPending f)
  /-- The head is sent. -/
  | head (x : Exchange) (h : x.headersSent = false) (hc : x.closed = false) : Move x x.sendHeaders.2
  /-- The body is written behind the head, if there is to be one. -/
  | body (x : Exchange) (w : Writer) (h : x.headersSent = true) (hh : x.isHead = false)
    (hw : x.out.Moves w) : Move x { x with out := w }
  /-- A part changes that the client does not see. -/
  | inside (x : Exchange) (rest : RequestBody) (a : Attributes) (d : Bool) (l : List LogEvent) :
    Move x { x with body := rest, attributes := a, detached := d, log := l }

abbrev Exchange.Moves : Exchange → Exchange → Prop := Relation.ReflTransGen Exchange.Move

namespace Writer

theorem Move.limit_eq {w w' : Writer} (h : w.Move w') : w'.limit = w.limit := by
  cases h with
  | write b =>
      unfold Writer.write
      simp only
      split <;> rfl
  | writeAll b => rfl
  | flush =>
      unfold Writer.flush
      split <;> rfl

theorem Moves.limit_eq {w w' : Writer} (h : w.Moves w') : w'.limit = w.limit := by
  induction h with
  | refl => rfl
  | tail _ h ih => exact h.limit_eq.trans ih

end Writer

namespace Exchange

variable {x y z : Exchange}

def nextHead (x : Exchange) : ResponseHead :=
  match x.transport with
  | .memory => ⟨x.status, x.pending⟩
  | .wire => ⟨x.status, x.pending.insert .connection .close⟩

@[simp] theorem status_nextHead (x : Exchange) : x.nextHead.status = x.status := by
  unfold nextHead
  split <;> rfl

theorem sendHeaders_of_closed (h : x.closed = true) : x.sendHeaders = (.error .closed, x) := by
  rw [sendHeaders, if_pos h]

theorem sendHeaders_of_headersSent (hc : x.closed = false) (h : x.headersSent = true) :
    x.sendHeaders = (.error .headersAlreadySent, x) := by
  rw [sendHeaders, if_neg (Bool.eq_false_iff.1 hc), if_pos h]

/-- Sending the head of an open exchange for the first time: it counts as sent even if the writer
takes only part of it, and only then sending it may fail. -/
theorem sendHeaders_cases (hc : x.closed = false) (hs : x.headersSent = false) :
    ∃ out n, x.sendHeaders.2 =
        { x with pending := x.nextHead.headers, sent := some x.nextHead, out, sends := n } ∧
      n ≤ x.sends + 1 ∧ x.out.Moves out := by
  unfold sendHeaders nextHead
  rw [if_neg (Bool.eq_false_iff.1 hc), if_neg (Bool.eq_false_iff.1 hs)]
  cases ht : x.transport with
  | memory => exact ⟨x.out, x.sends + 1, rfl, Nat.le_refl _, .refl⟩
  | wire =>
      simp only
      have hout := Writer.Move.writeAll x.out
        (ResponseHead.bytes ⟨x.status, x.pending.insert .connection .close⟩)
      split
      · next out h =>
        rw [h] at hout
        exact ⟨out, x.sends + 1, rfl, Nat.le_refl _, .single hout⟩
      · next e out h =>
        rw [h] at hout
        exact ⟨out, x.sends, rfl, Nat.le_succ _, .single hout⟩

/-- What does not change as long as the exchange is not released. -/
theorem Moves.frame (h : x.Moves y) :
    y.transport = x.transport ∧ y.request = x.request ∧ y.closed = x.closed ∧
      y.out.limit = x.out.limit := by
  induction h with
  | refl => exact ⟨rfl, rfl, rfl, rfl⟩
  | tail _ h ih =>
      cases h with
      | head hs hc =>
          obtain ⟨out, n, heq, -, hout⟩ := sendHeaders_cases hc hs
          rw [heq]
          exact ⟨ih.1, ih.2.1, ih.2.2.1, hout.limit_eq.trans ih.2.2.2⟩
      | body w _ _ hw => exact ⟨ih.1, ih.2.1, ih.2.2.1, hw.limit_eq.trans ih.2.2.2⟩
      | status => exact ih
      | pending => exact ih
      | inside => exact ih

theorem Moves.isHead_eq (h : x.Moves y) : y.isHead = x.isHead := by
  rw [isHead, isHead, h.frame.2.1]

theorem Moves.of_sent {head : ResponseHead} (h : x.Moves y) (hx : x.sent = some head) :
    y.sent = some head ∧ y.status = x.status := by
  induction h with
  | refl => exact ⟨hx, rfl⟩
  | @tail y z _ h ih =>
      have hy : y.headersSent = true := by rw [headersSent, ih.1]; rfl
      cases h with
      | status s h => exact absurd h (by rw [hy]; exact Bool.noConfusion)
      | pending f h => exact absurd h (by rw [hy]; exact Bool.noConfusion)
      | head h => exact absurd h (by rw [hy]; exact Bool.noConfusion)
      | body w => exact ih
      | inside => exact ih

theorem Moves.headersSent_mono (h : x.Moves y) (hx : x.headersSent = true) :
    y.headersSent = true := by
  obtain ⟨head, hhead⟩ := Option.isSome_iff_exists.1 hx
  rw [headersSent, (h.of_sent hhead).1]
  rfl

/-- As long as the head has not been sent, nothing has been written. -/
theorem Moves.out_eq_of_headersSent_eq_false (h : x.Moves y) (hy : y.headersSent = false) :
    y.out = x.out := by
  induction h with
  | refl => rfl
  | @tail y z hxy h ih =>
      cases h with
      | status s h => exact ih h
      | pending f h => exact ih h
      | head h hc =>
          obtain ⟨out, n, heq, -⟩ := sendHeaders_cases hc h
          rw [heq] at hy
          cases hy
      | body w h => exact absurd hy (by rw [headersSent] at h ⊢; rw [h]; exact Bool.noConfusion)
      | inside => exact ih hy

/-- Sending the head has succeeded at most once, and never if it has not been sent; the status is
the one that it was sent with. -/
structure Orderly (x : Exchange) : Prop where
  sends_le : x.sends ≤ 1
  sends_eq : x.sent = none → x.sends = 0
  status_eq : ∀ head, x.sent = some head → head.status = x.status

theorem sent_eq_none (h : x.headersSent = false) : x.sent = none :=
  Option.isSome_eq_false_iff.1 h |> Option.isNone_iff_eq_none.1

theorem Orderly.of_moves (hx : x.Orderly) (h : x.Moves y) : y.Orderly := by
  induction h with
  | refl => exact hx
  | tail _ h ih =>
      cases h with
      | status s h =>
          refine ⟨ih.sends_le, ih.sends_eq, ?_⟩
          intro head hhead
          rw [sent_eq_none h] at hhead
          cases hhead
      | pending f h => exact ⟨ih.sends_le, ih.sends_eq, ih.status_eq⟩
      | head h hc =>
          obtain ⟨out, n, heq, hn, -⟩ := sendHeaders_cases hc h
          rw [heq]
          refine ⟨?_, ?_, ?_⟩
          · rw [ih.sends_eq (sent_eq_none h)] at hn
            exact hn
          · intro hsent
            cases hsent
          · intro head hhead
            cases hhead
            exact status_nextHead _
      | body w => exact ⟨ih.sends_le, ih.sends_eq, ih.status_eq⟩
      | inside => exact ⟨ih.sends_le, ih.sends_eq, ih.status_eq⟩

/-!
## The operations of an exchange are moves
-/

theorem moves_report (x : Exchange) (e : LogEvent) : x.Moves (x.report e) :=
  .single (.inside x x.body x.attributes x.detached (x.log ++ [e]))

theorem moves_setStatus (x : Exchange) (s : Status) : x.Moves (x.setStatus s).2 := by
  unfold setStatus
  split
  · exact .refl
  · next h => exact .single (.status x s (Bool.eq_false_iff.2 h))

theorem moves_withPending (h : x.headersSent = false) (f : Headers → Headers) :
    x.Moves (x.withPending f) :=
  .single (.pending x f h)

theorem moves_sendHeaders (x : Exchange) : x.Moves x.sendHeaders.2 := by
  cases hc : x.closed with
  | true =>
      rw [sendHeaders_of_closed hc]
  | false =>
      cases hs : x.headersSent with
      | true => rw [sendHeaders_of_headersSent hc hs]
      | false => exact .single (.head x hs hc)

theorem moves_detach (x : Exchange) : x.Moves x.detach.2 := by
  unfold detach
  split
  · exact .refl
  · exact .single (.inside x x.body x.attributes true x.log)

theorem moves_readBody (x : Exchange) : x.Moves x.readBody.2 :=
  .single (.inside x x.body.readAll.2 x.attributes x.detached x.log)

theorem moves_write (h : x.headersSent = true) (hh : x.isHead = false) (b : Bytes) :
    x.Moves (x.write b).2 :=
  .single (.body x _ h hh (.single (.write x.out b)))

theorem moves_writeAll (h : x.headersSent = true) (hh : x.isHead = false) (b : Bytes) :
    x.Moves (x.writeAll b).2 :=
  .single (.body x _ h hh (.single (.writeAll x.out b)))

theorem moves_flush (h : x.headersSent = true) (hh : x.isHead = false) : x.Moves x.flush.2 :=
  .single (.body x _ h hh (.single (.flush x.out)))

/-- Sending the head of an exchange succeeds only if it leaves the head sent. -/
theorem headersSent_of_sendHeaders (h : x.sendHeaders = (.ok (), y)) : y.headersSent = true := by
  cases hc : x.closed with
  | true =>
      rw [sendHeaders_of_closed hc] at h
      cases h
  | false =>
      cases hs : x.headersSent with
      | true =>
          rw [sendHeaders_of_headersSent hc hs] at h
          cases h
      | false =>
          obtain ⟨out, n, heq, -⟩ := sendHeaders_cases hc hs
          simp only [h] at heq
          rw [heq]
          rfl

end Exchange

end HttpDispatch
