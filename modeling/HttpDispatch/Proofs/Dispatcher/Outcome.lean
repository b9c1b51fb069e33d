import HttpDispatch.Proofs.Dispatcher.Journal

/-!
# The outcome of a dispatch

What a dispatch reports agrees with what it has left on the exchange. The callbacks keep the
exchange orderly, because all they can do is move it; `Dispatcher.meets_send` says what sending the
response adds to that, by whichever way it ends, and releasing an exchange changes nothing that has
been sent.
-/

namespace HttpDispatch

variable {σ : Type}

namespace Exchange

structure Fresh (x : Exchange) : Prop where
  sent : x.sent = none
  sends : x.sends = 0

theorem Fresh.orderly {x : Exchange} (h : x.Fresh) : x.Orderly := by
  refine ⟨?_, fun _ => h.sends, ?_⟩
  · rw [h.sends]
    exact Nat.zero_le 1
  · intro head hhead
    rw [h.sent] at hhead
    cases hhead

structure Released (x y : Exchange) : Prop where
  closed : y.closed = true
  sent : y.sent = x.sent
  sends : y.sends = x.sends
  status : y.status = x.status
  written : y.out.written = x.out.written

theorem released_close (x : Exchange) : x.Released x.close.2 := by
  unfold close
  cases x.transport with
  | memory => exact ⟨rfl, rfl, rfl, rfl, rfl⟩
  | wire =>
      simp only
      split
      · next hc => exact ⟨hc, rfl, rfl, rfl, rfl⟩
      · exact ⟨rfl, rfl, rfl, rfl, x.out.written_flush⟩

end Exchange

theorem Context.released_close (c : Context) : c.exchange.Released c.close.exchange := by
  have hx := c.exchange.released_close
  unfold close Context.attempt Attempt.inside
  rcases hr : c.exchange.close with ⟨e | ⟨⟩, y⟩
  · rw [hr] at hx
    exact ⟨hx.closed, hx.sent, hx.sends, hx.status, hx.written⟩
  · rw [hr] at hx
    exact hx

theorem Context.truncated_close (c : Context) : c.close.truncated = c.truncated := by
  unfold close Context.attempt Attempt.inside
  rcases c.exchange.close with ⟨e | ⟨⟩, y⟩
  · rfl
  · rfl

namespace Dispatcher

/-- Sending a response moves the request. Unless that ends in a response that is cut short, the head
has been sent, and with the status that is reported, if it was not streamed. -/
theorem send_moves (r : Response) (c : Context) :
    c.Moves (send r c).2 ∧
      ((send r c).2.truncated = false → (send r c).2.exchange.headersSent = true ∧
        (r.isStreamed = false → (send r c).2.exchange.status = (send r c).1)) := by
  have hcommit := Context.meets_commit c r
  unfold send
  generalize c.commit r = attempt at hcommit ⊢
  obtain ⟨e | ⟨⟩, c₁⟩ := attempt
  · simp only
    split
    · refine ⟨(hcommit.moves.trans (Context.moves_report _ _)).trans (Context.moves_truncate _), ?_⟩
      intro h
      cases h
    · have hm := hcommit.moves.trans (Context.moves_report c₁ (.commitFailed c₁.id e))
      generalize c₁.report (.commitFailed c₁.id e) = c₂ at hm ⊢
      generalize c₁.exchange.request.headers.acceptsJson = asJson
      have hfallback := Context.meets_commit c₂ (.internalError asJson)
      generalize c₂.commit (.internalError asJson) = attempt at hfallback ⊢
      obtain ⟨e' | ⟨⟩, c₃⟩ := attempt
      · refine ⟨((hm.trans hfallback.moves).trans (Context.moves_report _ _)).trans
          (Context.moves_truncate _), ?_⟩
        intro h
        cases h
      · obtain ⟨hsent, hstatus⟩ := hfallback.post () rfl
        have hplain : (Response.internalError asJson).isStreamed = false := by
          cases asJson <;> rfl
        exact ⟨hm.trans hfallback.moves, fun _ => ⟨hsent, fun _ => hstatus hplain⟩⟩
  · exact ⟨hcommit.moves, fun _ => hcommit.post () rfl⟩

/-- What is reported about a dispatch agrees with its exchange. -/
structure Reported (o : Outcome) (y : Exchange) : Prop where
  sends_le : y.sends ≤ 1
  headersSent : o.truncated = false → y.headersSent = true
  closed : o.truncated = true → y.closed = true
  status : ∀ head, y.sent = some head → o.status = head.status

theorem reported_finish (r : Response) (p : Passage σ) (h : p.run.context.exchange.Orderly) :
    Reported (finish r p).outcome (finish r p).run.context.exchange := by
  obtain ⟨hm, hsend⟩ := send_moves r p.run.context
  unfold finish
  generalize send r p.run.context = result at hm hsend ⊢
  obtain ⟨status, c⟩ := result
  have ho := h.of_moves hm.exchange
  cases ht : c.truncated with
  | true =>
      have hclose := c.released_close
      simp only [ht, Bool.or_true, if_true]
      refine ⟨?_, ?_, fun _ => hclose.closed, ?_⟩
      · exact Nat.le_trans (Nat.le_of_eq hclose.sends) ho.sends_le
      · intro h
        have ht' : c.close.truncated = false := h
        rw [c.truncated_close, ht] at ht'
        cases ht'
      · intro head hhead
        exact (ho.status_eq head (hclose.sent ▸ hhead)).symm
  | false =>
      obtain ⟨hsent, hstatus⟩ := hsend ht
      simp only [ht, Bool.or_false]
      refine ⟨ho.sends_le, fun _ => hsent, ?_, ?_⟩
      · intro h
        have ht' : c.truncated = true := h
        rw [ht] at ht'
        cases ht'
      · intro head hhead
        have hhead' : head.status = c.exchange.status := ho.status_eq head hhead
        cases hr : r.isStreamed with
        | true => exact hhead'.symm
        | false => exact (hstatus hr).symm.trans hhead'.symm

theorem sound_arrive (d : Dispatcher σ) (s : Surroundings σ) (x : Exchange) :
    (d.arrive s x).run.Sound := by
  refine ⟨?_, ?_⟩
  · rintro _ ⟨⟩
  · rintro _ ⟨⟩

/-- Whatever the callbacks do and however much of the response can be delivered: sending the head
has succeeded at most once; a response that was not cut short has had its head sent, and one that
was cut short has had its exchange released; and the status that is reported is the one that the
head was sent with. -/
theorem reported_dispatch (d : Dispatcher σ) (s : Surroundings σ) {x : Exchange} (h : x.Fresh) :
    Reported (d.dispatch s x).outcome (d.dispatch s x).run.context.exchange := by
  obtain ⟨response, p, steps, hd, -, hleads⟩ := d.leads_dispatch s x
  obtain ⟨hm, -⟩ := hleads.advances (d.sound_arrive s x)
  rw [hd]
  exact reported_finish response p (h.orderly.of_moves hm.exchange)

def idle : Dispatcher Unit :=
  { routes := .empty false 8, coder := { encode := fun _ _ _ => [], decode := fun _ _ => none } }

/-- A request whose client goes away after ten bytes of the response. -/
def goingAway : Exchange :=
  { transport := .wire, request := { method := .get, path := "/" }, body := .held [],
    out := { limit := some 10 } }

/-- The head of the answer that there is nothing here counts as sent even though it breaks off. -/
theorem reported_dispatch_goingAway :
    goingAway.Fresh ∧
      Reported (idle.dispatch { app := (), freshId := ⟨0⟩ } goingAway).outcome
        (idle.dispatch { app := (), freshId := ⟨0⟩ } goingAway).run.context.exchange ∧
      (idle.dispatch { app := (), freshId := ⟨0⟩ } goingAway).outcome.truncated = true ∧
      (idle.dispatch { app := (), freshId := ⟨0⟩ } goingAway).outcome.status = .notFound := by
  have hfresh : goingAway.Fresh := ⟨rfl, rfl⟩
  exact ⟨hfresh, reported_dispatch idle { app := (), freshId := ⟨0⟩ } hfresh,
    by decide +kernel, by decide +kernel⟩

end Dispatcher

end HttpDispatch
