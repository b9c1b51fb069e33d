import HttpDispatch.Proofs.Dispatcher.Identified
import HttpDispatch.Proofs.Dispatcher.Kept
import HttpDispatch.Proofs.Program.Filled

/-!
# Responses that have no body

A response whose status allows for no body should be a head that announces none
(`Exchange.SendsBare`). A response whose body is sent in one piece is, whatever the body, and
however little of it arrives. A streamed response that has been left unwritten is, unless a length
is pending. A response whose head a response stream has sent is not: the stream sends its body, or
announces that there is none, all the same (`Dispatcher.sendsBare_dispatch_iff`).
-/

namespace HttpDispatch

variable {σ : Type}

namespace Exchange

variable {x y z : Exchange}

/-- From `x` to `y` nothing has been sent but the head, as much as there is room for, and the head
announces no length. -/
structure SendsBare (x y : Exchange) : Prop where
  written : y.out.written = x.out.written ++ x.out.taken y.headBytes
  unannounced : ∀ head, y.sent = some head → head.headers.getAll .contentLength = []

theorem sendsBare_congr (h : x.out = y.out) : x.SendsBare z ↔ y.SendsBare z :=
  ⟨fun hz => ⟨h ▸ hz.written, hz.unannounced⟩, fun hz => ⟨h ▸ hz.written, hz.unannounced⟩⟩

theorem sendsBare_congr_right (hsent : z.sent = y.sent) (hbytes : z.headBytes = y.headBytes)
    (hwritten : z.out.written = y.out.written) : x.SendsBare y ↔ x.SendsBare z := by
  constructor
  · exact fun h => ⟨by rw [hwritten, hbytes, h.written], hsent ▸ h.unannounced⟩
  · exact fun h => ⟨by rw [← hwritten, ← hbytes, h.written], hsent ▸ h.unannounced⟩

theorem Filled.not_sendsBare (h : y.Filled x.out.written.length) {head : ResponseHead}
    (hhead : y.sent = some head) (hb : head.status.IsBodiless) : ¬ x.SendsBare y := by
  intro hbare
  obtain hlt | hlength := h head hhead hb
  · have htaken : (x.out.taken y.headBytes).length ≤ y.headBytes.length := by
      rw [Writer.taken, List.length_take]
      exact Nat.min_le_right _ _
    rw [hbare.written, List.length_append] at hlt
    omega
  · exact hlength (hbare.unannounced head hhead)

theorem sendsBare_sendHeaders_iff (hc : x.closed = false) (hs : x.headersSent = false) :
    x.SendsBare x.sendHeaders.2 ↔ x.pending.getAll .contentLength = [] := by
  obtain ⟨out, n, heq, -⟩ := sendHeaders_cases hc hs
  have hsent : x.sendHeaders.2.sent = some x.nextHead := by rw [heq]
  have htransport : x.sendHeaders.2.transport = x.transport := by rw [heq]
  have hbytes : x.sendHeaders.2.headBytes = x.transport.headBytes x.nextHead := by
    rw [headBytes, hsent, htransport]
  have hfield : x.nextHead.headers.getAll .contentLength = x.pending.getAll .contentLength :=
    getAll_nextHead (by decide) x
  constructor
  · exact fun h => hfield ▸ h.unannounced _ hsent
  · intro h
    refine ⟨?_, fun head hhead => ?_⟩
    · rw [hbytes]
      exact written_sendHeaders hc hs
    · rw [hsent] at hhead
      cases hhead
      exact hfield.trans h

theorem status_sendPayload (x : Exchange) (payload : Bytes) (withBody : Bool) :
    (x.sendPayload payload withBody).2.status = x.status := by
  unfold sendPayload
  refine Attempt.andThen_preserves (P := fun y : Exchange => y.status = x.status) ?_ ?_
  · rw [Attempt.snd_mapError]
    exact status_sendHeaders _
  · intro _ y _ hy
    split
    · exact hy
    · split
      · exact hy
      · refine Attempt.andThen_preserves (P := fun y : Exchange => y.status = x.status) ?_ ?_
        · rw [Attempt.snd_mapError]
          exact hy
        · intro _ z _ hz
          rw [Attempt.snd_mapError]
          exact hz

theorem status_sendBody (x : Exchange) (coder : Coder) (settings : CompressionSettings)
    (body : Bytes) (withBody : Bool) :
    (x.sendBody coder settings body withBody).2.status = x.status := by
  unfold sendBody
  split
  · exact status_sendPayload x body false
  · dsimp only
    split
    · exact status_sendPayload _ _ _
    · exact status_sendPayload _ _ _

end Exchange

theorem Body.encodes_of_payload? {codec : Codec} {body : Body} {b : Bytes}
    {mediaType : Option FieldValue} (h : body.payload? codec = .ok (some (b, mediaType))) :
    body.Encodes codec b mediaType := by
  cases body with
  | empty =>
      cases h
      exact .empty
  | bytes b =>
      cases h
      exact .bytes b
  | text s =>
      cases h
      exact .text s
  | json v =>
      rw [payload?] at h
      cases hv : codec.encode v with
      | error e =>
          rw [hv] at h
          cases h
      | ok b' =>
          rw [hv] at h
          cases h
          exact .json hv
  | streamed => cases h

open Exchange

namespace Context

variable {c : Context} {r : Response}

theorem status_commit (ho : c.exchange.Orderly) (hs : c.exchange.headersSent = false)
    (hr : r.isStreamed = false) {head : ResponseHead}
    (hhead : (c.commit r).2.exchange.sent = some head) : head.status = r.status := by
  have hstatus : head.status = (c.commit r).2.exchange.status :=
    (ho.of_moves (c.meets_commit r).moves.exchange).status_eq head hhead
  rcases hpayload : r.body.payload? c.codec with e | _ | ⟨body, mediaType⟩
  · rw [commit, hpayload] at hhead
    cases (sent_eq_none hs).symm.trans hhead
  · rw [Response.isStreamed_of_payload? hpayload] at hr
    cases hr
  · rw [commit_eq hs (Body.encodes_of_payload? hpayload)] at hstatus
    cases hp : r.status.permitsBody with
    | true =>
        rw [hp, if_pos rfl] at hstatus
        exact hstatus.trans (status_sendBody _ _ _ _ _)
    | false =>
        rw [hp, if_neg Bool.false_ne_true, sendHeaders, Attempt.snd_mapError] at hstatus
        exact hstatus.trans (status_sendHeaders _)

theorem not_isBodiless_commit_internalError (ho : c.exchange.Orderly)
    (hs : c.exchange.headersSent = false) (asJson : Bool) {head : ResponseHead}
    (hhead : (c.commit (.internalError asJson)).2.exchange.sent = some head) :
    ¬ head.status.IsBodiless := by
  have hinternal : ∀ asJson, (Response.internalError asJson).isStreamed = false ∧
      ¬ (Response.internalError asJson).status.IsBodiless := by decide
  rw [status_commit ho hs (hinternal asJson).1 hhead]
  exact (hinternal asJson).2

/-- A response whose body is sent in one piece, and whose head has gone out without allowing for a
body, is bare. -/
theorem sendsBare_commit_of_not_isStreamed (ho : c.exchange.Orderly)
    (hc : c.exchange.closed = false) (hs : c.exchange.headersSent = false)
    (hr : r.isStreamed = false) {head : ResponseHead}
    (hhead : (c.commit r).2.exchange.sent = some head) (hb : head.status.IsBodiless) :
    c.exchange.SendsBare (c.commit r).2.exchange := by
  have hp : r.status.permitsBody = false := by
    rw [← status_commit ho hs hr hhead]
    exact (Status.isBodiless_iff _).1 hb
  rcases hpayload : r.body.payload? c.codec with e | _ | ⟨body, mediaType⟩
  · rw [commit, hpayload] at hhead
    cases (sent_eq_none hs).symm.trans hhead
  · rw [Response.isStreamed_of_payload? hpayload] at hr
    cases hr
  · rw [commit_eq hs (Body.encodes_of_payload? hpayload), hp, if_neg Bool.false_ne_true,
      sendHeaders, Attempt.snd_mapError]
    generalize hfields : (c.responseFields r.headers mediaType).erase .contentLength = fields
    have hbare := sendsBare_sendHeaders_iff (x := (c.answering r.status fields).exchange) hc hs
    refine (sendsBare_congr (x := (c.answering r.status fields).exchange) (y := c.exchange) rfl).1
      (hbare.2 ?_)
    rw [← hfields]
    exact (Headers.getAll_erase _ _ _).trans (if_pos rfl)

/-- A streamed response that has been left unwritten is bare if no length is pending. -/
theorem sendsBare_commit_iff_of_isStreamed (hc : c.exchange.closed = false)
    (hs : c.exchange.headersSent = false) (hr : r.isStreamed = true) :
    c.exchange.SendsBare (c.commit r).2.exchange ↔
      c.exchange.pending.getAll .contentLength = [] := by
  have hstamped :
      c.stamp.exchange.pending.getAll .contentLength = c.exchange.pending.getAll .contentLength :=
    (Headers.getAll_insertNew _ _ _ _).trans (if_neg fun h => absurd h.1 (by decide))
  have hbare := sendsBare_sendHeaders_iff (x := c.stamp.exchange) hc hs
  rw [hstamped] at hbare
  rw [commit_of_isStreamed hs hr, sendHeaders, Attempt.snd_mapError]
  exact (sendsBare_congr (x := c.exchange) (y := c.stamp.exchange) rfl).trans hbare

end Context

namespace Dispatcher

variable {d : Dispatcher σ} {s : Surroundings σ} {x : Exchange}

theorem sendsBare_send_iff {c : Context} (r : Response) (ho : c.exchange.Orderly)
    (hc : c.exchange.closed = false) (hs : c.exchange.headersSent = false) {head : ResponseHead}
    (hhead : (send r c).2.exchange.sent = some head)
    (hb : head.status.IsBodiless) :
    c.exchange.SendsBare (send r c).2.exchange ↔
      (r.isStreamed = true → c.exchange.pending.getAll .contentLength = []) := by
  have hcommitted : ∀ head, (c.commit r).2.exchange.sent = some head → head.status.IsBodiless →
      (c.exchange.SendsBare (c.commit r).2.exchange ↔
        (r.isStreamed = true → c.exchange.pending.getAll .contentLength = [])) := by
    intro head hhead hb
    cases hr : r.isStreamed with
    | true =>
      exact (Context.sendsBare_commit_iff_of_isStreamed hc hs hr).trans ⟨fun h _ => h,
        fun h => h rfl⟩
    | false =>
      exact iff_of_true (Context.sendsBare_commit_of_not_isStreamed ho hc hs hr hhead hb) nofun
  have hmeets := c.meets_commit r
  unfold send at hhead ⊢
  generalize c.commit r = attempt at hcommitted hmeets hhead ⊢
  obtain ⟨e | ⟨⟩, c₁⟩ := attempt
  · dsimp only at hhead ⊢
    cases hs₁ : c₁.exchange.headersSent with
    | true =>
        rw [hs₁, if_pos rfl] at hhead
        rw [if_pos rfl]
        exact Iff.trans (sendsBare_congr_right (by rfl) (by rfl) (by rfl))
          (hcommitted head hhead hb)
    | false =>
        have ho₁ : c₁.exchange.Orderly := ho.of_moves hmeets.moves.exchange
        rw [hs₁, if_neg Bool.false_ne_true] at hhead
        refine absurd hb (Context.not_isBodiless_commit_internalError
          (c := c₁.report (.commitFailed c₁.id e)) ⟨ho₁.sends_le, ho₁.sends_eq, ho₁.status_eq⟩ hs₁
          c₁.exchange.request.headers.acceptsJson ?_)
        generalize (c₁.report (.commitFailed c₁.id e)).commit
          (.internalError c₁.exchange.request.headers.acceptsJson) = fallback at hhead ⊢
        obtain ⟨e' | ⟨⟩, c₂⟩ := fallback
        · exact hhead
        · exact hhead
  · exact hcommitted head hhead hb

theorem stable_filling (x : Exchange) :
    Stable (fun r : Run σ => r.Filling x ∧ r.stream = none) fun _ => True where
  notes := by
    intro r r' hr h
    have hwaits := Run.waits_of_bare_eq h
    -- the notes may also take back that the response was cut short
    have hfilling : Run.Filling x { r' with context := r'.context.truncate } :=
      hr.1.of_waits (Run.advances_of_bare_eq h fun _ => rfl) (Run.waits_of_bare_eq h)
    exact ⟨⟨⟨hfilling.sound.stream, hfilling.sound.events⟩, hfilling.moves, hfilling.productive,
      hfilling.streamProductive, hfilling.filled, hfilling.alone⟩, hwaits.stream.trans hr.2⟩
  streamed := trivial
  ofError _ _ := trivial

theorem filling_arrive (hs : x.headersSent = false) (hd : d.coder.IsProductive) :
    (d.arrive s x).run.Filling x where
  sound := d.sound_arrive s x
  moves := .refl
  productive := hd
  streamProductive := nofun
  filled := nofun
  alone _ := filled_of_unsent hs

/-- Whoever has sent a head before the response is due has sent more than a head that
stands alone. -/
theorem filled_respond (hx : x.Yields) (hs : x.headersSent = false) (hd : d.coder.IsProductive) :
    (d.respond s x).2.run.context.exchange.Filled x.out.written.length := by
  have hrun : ∀ i ∈ d.invocations s x,
      i.Keeps (fun r => r.Filling x ∧ r.stream = none) fun _ => True := fun i _ =>
    ⟨fun hr => ⟨i.program.filling_run hx i.handler hr.1, Run.stream_settle _ _⟩, fun _ _ => trivial⟩
  obtain ⟨-, hfilling, hnone⟩ := (stable_filling x).respond d s x hrun ⟨filling_arrive hs hd, rfl⟩
  exact hfilling.alone hnone

/-- A dispatch that has sent the head of a response without a body. If the head had not been sent
when the response was due, nothing else has been sent, unless the response was a streamed one and a
length was pending. If the head had been sent before, and so by a response stream, more has been
sent, unless the request asks for the head only and the head announces no length. -/
theorem sendsBare_dispatch_iff (hx : x.Fresh) (hc : x.closed = false) {head : ResponseHead}
    (hhead : (d.dispatch s x).run.context.exchange.sent = some head) (hb : head.status.IsBodiless) :
    ((d.respond s x).2.headersSent = false →
        (x.SendsBare (d.dispatch s x).run.context.exchange ↔ ((d.respond s x).1.isStreamed = true →
          (d.respond s x).2.run.context.exchange.pending.getAll .contentLength = []))) ∧
      ((d.respond s x).2.headersSent = true → x.out.limit = none → d.coder.IsProductive →
        (x.SendsBare (d.dispatch s x).run.context.exchange ↔
          x.isHead = true ∧ head.headers.getAll .contentLength = [])) := by
  have hs : x.headersSent = false := by rw [headersSent, hx.sent]; rfl
  have hm : x.Moves (d.respond s x).2.run.context.exchange :=
    (d.advances_respond s x (d.sound_arrive s x)).1.exchange
  have hfilled := fun hy hd => filled_respond (d := d) (s := s) (x := x) hy hs hd
  rw [d.dispatch_eq_finish s x] at hhead ⊢
  generalize d.respond s x = responded at hm hfilled hhead ⊢
  obtain ⟨r, p⟩ := responded
  obtain ⟨hsent, hbytes, hwritten⟩ := sent_finish_eq r p
  have hcongr := (sendsBare_congr_right (x := x) hsent hbytes hwritten).symm
  have hheadSend : (send r p.run.context).2.exchange.sent = some head := hsent ▸ hhead
  refine ⟨fun hp => ?_, fun hp hlimit hd => ?_⟩
  · have hclosed : p.run.context.exchange.closed = false := hm.frame.2.2.1.trans hc
    have hout :=
      sendsBare_congr (z := (send r p.run.context).2.exchange)
        (hm.out_eq_of_headersSent_eq_false hp).symm
    exact hcongr.trans (hout.trans
      (sendsBare_send_iff r (hx.orderly.of_moves hm) hclosed hp hheadSend hb))
  · cases hh : x.isHead with
    | true =>
        have hall := written_finish_of_isHead r hm hh
        rw [hs, if_neg Bool.false_ne_true] at hall
        constructor
        · exact fun h => ⟨rfl, h.unannounced head hhead⟩
        · rintro ⟨-, hnone⟩
          refine ⟨hall, fun head' hhead' => ?_⟩
          obtain rfl : head = head' := Option.some.inj (hhead.symm.trans hhead')
          exact hnone
    | false =>
        have hsend := (send_moves r p.run.context).1.exchange
        have hsince := (hfilled ⟨hx.orderly, hc, hlimit, hh, fun _ => rfl⟩ hd).of_moves hp hsend
        refine iff_of_false (fun h => ?_) fun h => Bool.false_ne_true h.1
        exact hsince.not_sendsBare hheadSend hb (hcongr.1 h)

/-- A handler that says that there is no content, and streams some. -/
def contradicting : Handler Unit :=
  .call (.setStatus .noContent) fun _ =>
    .call .openStream fun _ => .call (.streamWriteAll [120]) fun _ =>
    .done .streamed

/-- A handler that says that there is no content, and how much of it, and leaves it at that. -/
def announcing : Handler Unit :=
  .call (.setStatus .noContent) fun _ =>
    .call (.setField .contentLength (.ofString "5")) fun _ => .done .streamed

def coding (h : Handler Unit) : Dispatcher Unit := { serving h with coder := .standard }

/-- The content follows the head of the first response, and is announced by the head of
the second. -/
theorem sendsBare_dispatch_iff_noContent :
    (∃ head,
      ((coding contradicting).dispatch { app := (), freshId := ⟨0⟩ }
        asking).run.context.exchange.sent = some head ∧ head.status = .noContent ∧
      ¬ asking.SendsBare ((coding contradicting).dispatch { app := (), freshId := ⟨0⟩ }
        asking).run.context.exchange) ∧
    ∃ head,
      ((coding announcing).dispatch { app := (), freshId := ⟨0⟩ }
        asking).run.context.exchange.sent = some head ∧ head.status = .noContent ∧
      ¬ asking.SendsBare ((coding announcing).dispatch { app := (), freshId := ⟨0⟩ }
        asking).run.context.exchange := by
  have hfresh : asking.Fresh := ⟨rfl, rfl⟩
  have hb : Status.noContent.IsBodiless := by decide
  constructor
  · have hsent : ((coding contradicting).dispatch { app := (), freshId := ⟨0⟩ }
        asking).run.context.exchange.sent.map (·.status) = some .noContent := by decide +kernel
    obtain ⟨head, hhead, hstatus⟩ := Option.map_eq_some_iff.1 hsent
    have hbare := (sendsBare_dispatch_iff hfresh rfl hhead (hstatus ▸ hb)).2 (by decide +kernel) rfl
      Coder.isProductive_standard
    exact ⟨head, hhead, hstatus, fun h => Bool.false_ne_true (hbare.1 h).1⟩
  · have hsent : ((coding announcing).dispatch { app := (), freshId := ⟨0⟩ }
        asking).run.context.exchange.sent.map (·.status) = some .noContent := by decide +kernel
    obtain ⟨head, hhead, hstatus⟩ := Option.map_eq_some_iff.1 hsent
    have hbare := (sendsBare_dispatch_iff hfresh rfl hhead (hstatus ▸ hb)).1 (by decide +kernel)
    refine ⟨head, hhead, hstatus, fun h => ?_⟩
    have hpending := hbare.1 h (by decide +kernel)
    revert hpending
    decide +kernel

end Dispatcher

end HttpDispatch
