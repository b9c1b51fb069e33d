import HttpDispatch.Proofs.Dispatcher.Outcome
import HttpDispatch.Proofs.Exchange.Head

/-!
# Requests for the head only

The answer to a request for the head only has no body, whoever writes it: filters, handlers and
error handlers, the dispatcher itself, and the clients of event streams that outlive the dispatch.
Callbacks can do no more to an exchange than move it, and an emitter that belongs to the exchange of
such a request never sends.
-/

namespace HttpDispatch

variable {σ : Type}

theorem Exchange.transport_close (x : Exchange) : x.close.2.transport = x.transport := by
  unfold close
  split
  · rfl
  · split <;> rfl

theorem Context.transport_close (c : Context) :
    c.close.exchange.transport = c.exchange.transport := by
  have hx := c.exchange.transport_close
  unfold close Context.attempt Attempt.inside
  rcases hr : c.exchange.close with ⟨e | ⟨⟩, y⟩ <;> rw [hr] at hx <;> exact hx

theorem Context.headBytes_close (c : Context) :
    c.close.exchange.headBytes = c.exchange.headBytes := by
  rw [Exchange.headBytes, Exchange.headBytes, c.released_close.sent, c.transport_close]

namespace Dispatcher

/-- Sending the response to a request for the head only delivers nothing but the head. -/
theorem written_finish_of_isHead {x : Exchange} (r : Response) {p : Passage σ}
    (hm : x.Moves p.run.context.exchange) (hh : x.isHead = true) :
    (finish r p).run.context.exchange.out.written = x.out.written ++
      if x.headersSent then [] else x.out.taken (finish r p).run.context.exchange.headBytes := by
  have hsend := (send_moves r p.run.context).1.exchange
  unfold finish
  generalize send r p.run.context = result at hsend ⊢
  obtain ⟨status, c⟩ := result
  have hwritten := Exchange.Moves.written_of_isHead (hm.trans hsend) hh
  cases ht : c.truncated with
  | true =>
      simp only [ht]
      rw [← c.released_close.written, ← c.headBytes_close] at hwritten
      exact hwritten
  | false =>
      simp only [ht]
      exact hwritten

/-- The answer to a request for the head only is the head, or as much of it as there is room for. No
event stream that is left open can add anything to it. -/
theorem written_dispatch_of_isHead (d : Dispatcher σ) (s : Surroundings σ) {x : Exchange}
    (h : x.isHead = true) :
    (d.dispatch s x).run.context.exchange.out.written = x.out.written ++
        (if x.headersSent then []
          else x.out.taken (d.dispatch s x).run.context.exchange.headBytes) ∧
      ∀ e ∈ (d.dispatch s x).run.events, ∀ {α : Type} (t : EventStream.Task (σ → σ) α),
        (t.run e.stream).2.emitter.out = e.stream.emitter.out := by
  obtain ⟨response, p, steps, hd, -, hleads⟩ := d.leads_dispatch s x
  obtain ⟨hm, hsound⟩ := hleads.advances (d.sound_arrive s x)
  rw [hd]
  refine ⟨written_finish_of_isHead response hm.exchange h, ?_⟩
  intro e he α t
  refine (EventStream.advances_run t e.stream).silent ?_
  intro hsending
  have hbody := (hsound.events e he).2 hsending
  have hhead : p.run.context.exchange.isHead = true := hm.exchange.isHead_eq.trans h
  rw [hhead] at hbody
  cases hbody

def telling : Handler Unit :=
  .call .openStream fun _ => .call (.streamWriteAll [1, 2, 3]) fun _ => .done .streamed

def teller : Dispatcher Unit :=
  { idle with routes := (RouteTable.empty false 8).registerValid [.route .head "/" [] telling] }

def askingForHead : Exchange :=
  { transport := .wire, request := { method := .head, path := "/" }, body := .held [] }

/-- What the handler writes is swallowed. The client is sent the head, and all of it. -/
theorem written_dispatch_of_isHead_telling :
    askingForHead.isHead = true ∧
      (teller.dispatch { app := (), freshId := ⟨0⟩ }
          askingForHead).run.context.exchange.out.written =
        (teller.dispatch { app := (), freshId := ⟨0⟩ }
          askingForHead).run.context.exchange.headBytes ∧
      (teller.dispatch { app := (), freshId := ⟨0⟩ } askingForHead).run.context.exchange.headBytes =
        Text.encode ("HTTP/1.1 200 OK\r\nx-request-id: 00000000000000000000000000\r\n" ++
          "vary: Accept-Encoding\r\nconnection: close\r\n\r\n") := by
  have hwritten :=
    (written_dispatch_of_isHead teller { app := (), freshId := ⟨0⟩ } (x := askingForHead) rfl).1
  exact ⟨rfl, hwritten.trans List.take_length, by decide +kernel⟩

end Dispatcher

end HttpDispatch
