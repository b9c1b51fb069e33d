import HttpDispatch.Proofs.Connection.Writer
import HttpDispatch.Proofs.Exchange.Moves

/-!
# The head on its way to the client

What a writer is given of a head, and what arrives of it. An exchange is ready for its head if
nothing keeps the head from being sent (`Exchange.Ready`): then sending it succeeds, and all of it
arrives. Where the writer has not enough room, what there is room for arrives.

If the request asks for the head only, that is all that ever arrives:
`Exchange.Moves.written_of_isHead` says so of every use of an exchange.
-/

namespace HttpDispatch

def Transport.headBytes : Transport → ResponseHead → Bytes
  | memory, _ => []
  | wire, head => head.bytes

namespace Exchange

variable {x y : Exchange}

/-- A head has the pending fields; on a connection, it also says that the connection
ends with it. -/
theorem getAll_nextHead {n : FieldName} (hn : n ≠ .connection) (x : Exchange) :
    x.nextHead.headers.getAll n = x.pending.getAll n := by
  unfold nextHead
  split
  · rfl
  · rw [Headers.getAll_insert, if_neg (Ne.symm hn)]

/-- Nothing keeps the head from being sent: that has not been done, the exchange is open, and the
writer takes everything. -/
structure Ready (x : Exchange) : Prop where
  closed : x.closed = false
  headersSent : x.headersSent = false
  limit : x.out.limit = none

theorem Ready.sendHeaders_eq (h : x.Ready) :
    x.sendHeaders = (.ok (), { x with
      pending := x.nextHead.headers, sent := some x.nextHead, sends := x.sends + 1,
      out := x.out.receive (x.transport.headBytes x.nextHead) }) := by
  unfold Exchange.sendHeaders nextHead
  rw [if_neg (Bool.eq_false_iff.1 h.closed), if_neg (Bool.eq_false_iff.1 h.headersSent)]
  cases ht : x.transport with
  | memory => simp [Transport.headBytes, Writer.receive]
  | wire =>
      simp only
      rw [Writer.writeAll_of_limit_eq_none h.limit]
      rfl

theorem Ready.sendHeaders (h : x.Ready) :
    ∃ z, x.sendHeaders = (.ok (), z) ∧ z.sent = some x.nextHead ∧ z.status = x.status ∧
      z.out.written = x.out.written ++ x.transport.headBytes x.nextHead :=
  ⟨_, h.sendHeaders_eq, rfl, rfl, rfl⟩

def headBytes (x : Exchange) : Bytes :=
  match x.sent with
  | none => []
  | some head => x.transport.headBytes head

/-- Sending the head delivers as much of it as there is room for. -/
theorem written_sendHeaders (hc : x.closed = false) (hs : x.headersSent = false) :
    x.sendHeaders.2.out.written =
      x.out.written ++ x.out.taken (x.transport.headBytes x.nextHead) := by
  unfold Exchange.sendHeaders nextHead
  rw [if_neg (Bool.eq_false_iff.1 hc), if_neg (Bool.eq_false_iff.1 hs)]
  cases ht : x.transport with
  | memory => simp [Transport.headBytes]
  | wire =>
      simp only [Transport.headBytes]
      generalize ResponseHead.bytes ⟨x.status, x.pending.insert .connection .close⟩ = b
      have hout : (x.out.writeAll b).2.written = x.out.written ++ x.out.taken b :=
        x.out.written_writeAll b
      generalize x.out.writeAll b = r at hout ⊢
      obtain ⟨_ | _, out⟩ := r
      · exact hout
      · exact hout

/-- The answer to a request for the head only: whatever is done to the exchange, nothing arrives but
the head, unless that had been sent before. -/
theorem Moves.written_of_isHead (h : x.Moves y) (hh : x.isHead = true) :
    y.out.written =
      x.out.written ++ if x.headersSent then [] else x.out.taken y.headBytes := by
  induction h with
  | refl =>
      cases hs : x.headersSent with
      | true => simp
      | false => simp [headBytes, sent_eq_none hs]
  | @tail y z h₀ h ih =>
      have hxy : x.Moves y := h₀
      cases h with
      | status s h => exact ih
      | pending f h => exact ih
      | inside => exact ih
      | body w hs hbody =>
          -- the request asks for the head only
          rw [hxy.isHead_eq, hh] at hbody
          cases hbody
      | head hs hc =>
          have hx : x.headersSent = false := by
            cases hx : x.headersSent with
            | false => rfl
            | true => rw [← hs, hxy.headersSent_mono hx]
          obtain ⟨out, n, heq, -⟩ := sendHeaders_cases hc hs
          have hz : y.sendHeaders.2.headBytes = y.transport.headBytes y.nextHead := by
            rw [heq]
            rfl
          rw [written_sendHeaders hc hs, hz, hxy.out_eq_of_headersSent_eq_false hs, hx]
          rfl

end Exchange

end HttpDispatch
