import HttpDispatch.Proofs.Context.Commit
import HttpDispatch.Proofs.Dispatcher.Failure
import HttpDispatch.Proofs.Dispatcher.HeadOnly

/-!
# What is left of a response in the head that is sent

The response that a dispatch comes to has a status and fields of its own, and whoever has returned
it may have put something there that is nowhere else. A response whose body is sent in one piece
keeps all of that, whatever its status and whatever the request asks for. A streamed response has no
say in the status: if the head has not been sent yet, it is sent with the status that is pending
(`Dispatcher.keptBy_dispatch`).
-/

namespace HttpDispatch

variable {σ : Type}

/-- A field that is about the body as it travels, or about the connection. -/
def FieldName.IsFraming (n : FieldName) : Prop :=
  n = .contentLength ∨ n = .contentEncoding ∨ n = .vary ∨ n = .connection

instance (n : FieldName) : Decidable n.IsFraming :=
  inferInstanceAs
    (Decidable (n = .contentLength ∨ n = .contentEncoding ∨ n = .vary ∨ n = .connection))

/-- A head with this status and these fields keeps what the response says: its status, and the
values that it has under each name. -/
structure Response.KeptBy (r : Response) (status : Status) (fields : Headers) : Prop where
  status : status = r.status
  fields : ∀ n : FieldName, ¬ n.IsFraming → r.headers.getAll n ≠ [] →
    fields.getAll n = r.headers.getAll n

namespace Response

variable {r : Response} {status : Status} {fields fields' : Headers}

theorem keptBy_congr (h : ∀ n : FieldName, ¬ n.IsFraming → fields.getAll n = fields'.getAll n) :
    r.KeptBy status fields ↔ r.KeptBy status fields' :=
  ⟨fun hk => ⟨hk.status, fun n hn hr => (h n hn).symm.trans (hk.fields n hn hr)⟩,
    fun hk => ⟨hk.status, fun n hn hr => (h n hn).trans (hk.fields n hn hr)⟩⟩

end Response

namespace Context

open Exchange

variable {c : Context} {r : Response} {body : Bytes} {mediaType : Option FieldValue}

theorem keptBy_head_iff (status : Status) (fields : Headers) :
    r.KeptBy (c.head status fields).status (c.head status fields).headers ↔
      r.KeptBy status fields := by
  rw [head, status_nextHead]
  exact Response.keptBy_congr fun n hn => getAll_nextHead (fun h => hn (.inr (.inr (.inr h)))) _

theorem keptBy_responseFields (c : Context) (r : Response) (mediaType : Option FieldValue) :
    r.KeptBy r.status (c.responseFields r.headers mediaType) := by
  refine ⟨rfl, fun n _ hr => ?_⟩
  rw [getAll_responseFields, prescribed, if_pos hr]

/-- A response whose body is sent in one piece is sent with all that it says: one that never has a
body, one whose body is not asked for, and any other. -/
theorem keptBy_commit (hw : c.exchange.Works) (he : r.body.Encodes c.codec body mediaType) :
    ∃ head c', c.commit r = (.ok (), c') ∧ c'.exchange.sent = some head ∧
      r.KeptBy head.status head.headers := by
  have hkept := c.keptBy_responseFields r mediaType
  cases hb : r.status.permitsBody with
  | false =>
      obtain ⟨c', hcommit, hsends⟩ := sends_commit_of_bodiless hw.toReady he hb
      refine ⟨_, c', hcommit, hsends.sent,
        (keptBy_head_iff _ _).2 ((Response.keptBy_congr ?_).2 hkept)⟩
      exact fun n hn => (Headers.getAll_erase _ _ _).trans (if_neg fun h => hn (.inl h.symm))
  | true =>
      cases hh : c.exchange.isHead with
      | true =>
          obtain ⟨c', hcommit, hsends⟩ := sends_commit_of_isHead hw.toReady he hb hh
          refine ⟨_, c', hcommit, hsends.sent,
            (keptBy_head_iff _ _).2 ((Response.keptBy_congr ?_).2 hkept)⟩
          exact fun n hn => (Headers.getAll_insert _ _ _ _).trans (if_neg fun h => hn (.inl h.symm))
      | false =>
          obtain ⟨c', hcommit, hsends⟩ := sends_commit hw he hb hh rfl
          refine ⟨_, c', hcommit, hsends.sent,
            (keptBy_head_iff _ _).2 ((Response.keptBy_congr ?_).2 hkept)⟩
          intro n hn
          rw [Headers.getAll_insert, if_neg fun h => hn (.inl h.symm)]
          exact Headers.getAll_withCoding_of_ne _ _ _ (fun h => hn (.inr (.inl h)))
            (fun h => hn (.inl h)) fun h => hn (.inr (.inr (.inl h)))

theorem commit_of_isStreamed (hs : c.exchange.headersSent = false) (hr : r.isStreamed = true) :
    c.commit r = c.stamp.sendHeaders := by
  have hbody : r.body.payload? c.codec = .ok none := by
    unfold Response.isStreamed at hr
    cases hb : r.body with
    | streamed => rfl
    | _ =>
        rw [hb] at hr
        cases hr
  rw [commit, hbody]
  exact if_neg (Bool.eq_false_iff.1 hs)

theorem sends_commit_of_isStreamed (h : c.exchange.Ready) (hr : r.isStreamed = true) :
    ∃ c', c.commit r = (.ok (), c') ∧
      c.exchange.Sends (c.head c.exchange.status c.stamp.exchange.pending) [] c'.exchange := by
  have hstamped : c.stamp.exchange.Ready := h.withPending (·.insertNew .requestId c.id.fieldValue)
  obtain ⟨y, hsend, hy⟩ := hstamped.sends_sendHeaders
  refine ⟨{ c.stamp with exchange := y }, ?_, hy.sent, hy.written⟩
  rw [commit_of_isStreamed h.headersSent hr, sendHeaders, attempt_eq_ok hsend]
  rfl

end Context

namespace Dispatcher

open Passage

variable {d : Dispatcher σ} {s : Surroundings σ} {x : Exchange}

theorem sent_finish_eq (r : Response) (p : Passage σ) :
    (finish r p).run.context.exchange.sent = (send r p.run.context).2.exchange.sent ∧
      (finish r p).run.context.exchange.headBytes = (send r p.run.context).2.exchange.headBytes ∧
      (finish r p).run.context.exchange.out.written =
        (send r p.run.context).2.exchange.out.written := by
  unfold finish
  generalize send r p.run.context = result
  obtain ⟨status, c⟩ := result
  cases ht : c.truncated with
  | true =>
      have hclose := c.released_close
      simp only [ht]
      exact ⟨hclose.sent, c.headBytes_close, hclose.written⟩
  | false =>
      simp only [ht]
      exact ⟨rfl, rfl, rfl⟩

theorem sent_finish {r : Response} {p : Passage σ} {c : Context}
    (h : p.run.context.commit r = (.ok (), c)) :
    (finish r p).run.context.exchange.sent = c.exchange.sent := by
  rw [(sent_finish_eq r p).1, send, h]

/-- Up to its response a dispatch does to a run what programs may do. -/
theorem advances_respond (d : Dispatcher σ) (s : Surroundings σ) (x : Exchange) :
    (d.arrive s x).run.Advances (d.respond s x).2.run := by
  unfold respond
  cases d.routes.route? x.request.method x.request.path with
  | none =>
      obtain ⟨steps, -, hmapped⟩ :=
        d.leads_handleError (.http .notFound) ((d.received s x).fail (.http .notFound))
      have hreceived : (d.arrive s x).Leads d [] ((d.received s x).fail (.http .notFound)) :=
        leads_nil d rfl rfl rfl fun ht => ht
      exact (hreceived.trans hmapped).advances
  | some entry =>
      obtain ⟨main, steps, -, -, hrun⟩ := d.leads_runRoute entry (d.routed s x entry)
      exact ((d.leads_routed s x entry).trans hrun).advances

/-- As long as the head has not been sent, the exchange of a dispatch works if it worked when the
request arrived. -/
theorem works_respond (hw : x.Works) (hsent : (d.respond s x).2.headersSent = false) :
    (d.respond s x).2.run.context.exchange.Works := by
  have hmoves : x.Moves (d.respond s x).2.run.context.exchange :=
    (d.advances_respond s x (d.sound_arrive s x)).1.exchange
  obtain ⟨-, -, hclosed, hlimit⟩ := hmoves.frame
  have hout := hmoves.out_eq_of_headersSent_eq_false hsent
  exact ⟨⟨hclosed.trans hw.closed, hsent, hlimit.trans hw.limit⟩,
    (congrArg Writer.flushFailure hout).trans hw.flushFailure⟩

theorem isStreamed_of_encodes {r : Response} {codec : Codec} {body : Bytes}
    {mediaType : Option FieldValue} (h : r.body.Encodes codec body mediaType) :
    r.isStreamed = false := by
  unfold Response.isStreamed
  cases hb : r.body with
  | streamed =>
      rw [hb] at h
      cases h
  | _ => rfl

/-- On an exchange that works, the head that is sent keeps what the response says, unless that is a
streamed response: the head of one on which nothing has been written is sent with the pending
status. -/
theorem keptBy_dispatch (hw : x.Works) (hsent : (d.respond s x).2.headersSent = false)
    (hbody : (d.respond s x).1.isStreamed = true ∨
      ∃ body mediaType, (d.respond s x).1.body.Encodes d.codec body mediaType) :
    ∃ head, (d.dispatch s x).run.context.exchange.sent = some head ∧
      ((d.respond s x).1.isStreamed = false → (d.respond s x).1.KeptBy head.status head.headers) ∧
      ((d.respond s x).1.isStreamed = true →
        head.status = (d.respond s x).2.run.context.exchange.status) := by
  have hworks := works_respond hw hsent
  have hcodec : (d.respond s x).2.run.context.codec = d.codec :=
    (d.advances_respond s x (d.sound_arrive s x)).1.codec
  rw [d.dispatch_eq_finish s x]
  rw [← hcodec] at hbody
  generalize d.respond s x = responded at hworks hbody ⊢
  obtain ⟨r, p⟩ := responded
  obtain hstreamed | ⟨body, mediaType, he⟩ := hbody
  · obtain ⟨c', hcommit, hsends⟩ := Context.sends_commit_of_isStreamed hworks.toReady hstreamed
    refine ⟨_, (sent_finish hcommit).trans hsends.sent,
      fun h => ?_, fun _ => Exchange.status_nextHead _⟩
    rw [hstreamed] at h
    cases h
  · obtain ⟨head, c', hcommit, hhead, hkept⟩ := Context.keptBy_commit hworks he
    refine ⟨head, (sent_finish hcommit).trans hhead, fun _ => hkept, fun h => ?_⟩
    rw [isStreamed_of_encodes he] at h
    cases h

def seenName : FieldName := ⟨"x-seen", by decide⟩

/-- A dispatcher whose handler returns the response, which a filter changes. -/
def filtering (change : Response → Response) (r : Response) : Dispatcher Unit :=
  { idle with routes := (RouteTable.empty false 8).registerValid [.route .get "/" [] (.done r),
      .after none fun r => .done (change r)] }

def decorating : Response → Dispatcher Unit :=
  filtering fun r => (r.withStatus .notFound).withField seenName .json

def restating : Response → Dispatcher Unit := filtering (·.withStatus .notFound)

/-- What the filter says of a text reaches the client. -/
theorem keptBy_dispatch_decorating :
    asking.Works ∧ ∃ head, ((decorating (.text "seen")).dispatch { app := (), freshId := ⟨0⟩ }
        asking).run.context.exchange.sent = some head ∧
      head.status = .notFound ∧ head.headers.getAll seenName = [.json] := by
  have hw : asking.Works := ⟨⟨rfl, rfl, rfl⟩, rfl⟩
  generalize hr : (decorating (.text "seen")).respond { app := (), freshId := ⟨0⟩ } asking =
    responded
  have hstatus : responded.1.status = .notFound := hr ▸ by decide +kernel
  have hseen : responded.1.headers.getAll seenName = [.json] := hr ▸ by decide +kernel
  have hbody : responded.1.body = .text "seen" := hr ▸ rfl
  have hencodes :
      responded.1.body.Encodes (decorating (.text "seen")).codec
        (Text.encode "seen") (some .plainText) :=
    hbody ▸ .text "seen"
  have hsent : responded.2.headersSent = false := hr ▸ by decide +kernel
  obtain ⟨head, hhead, hkept, -⟩ := keptBy_dispatch (d := decorating (.text "seen"))
    (s := { app := (), freshId := ⟨0⟩ }) hw (hr ▸ hsent) (.inr ⟨_, _, hr ▸ hencodes⟩)
  rw [hr] at hkept
  have hall := hkept (by rw [Response.isStreamed, hbody])
  refine ⟨hw, head, hhead, hall.status.trans hstatus, ?_⟩
  rw [hall.fields seenName (by decide) (hseen ▸ List.cons_ne_nil _ _), hseen]

/-- The status that a filter gives to a streamed response does not. -/
theorem not_keptBy_dispatch_streamed :
    asking.Works ∧
      ((restating .streamed).respond { app := (), freshId := ⟨0⟩ } asking).2.headersSent = false ∧
      ((restating .streamed).respond { app := (), freshId := ⟨0⟩ } asking).1.isStreamed = true ∧
      ¬ ∃ head, ((restating .streamed).dispatch { app := (), freshId := ⟨0⟩ }
          asking).run.context.exchange.sent = some head ∧
        ((restating .streamed).respond { app := (), freshId := ⟨0⟩ } asking).1.KeptBy head.status
          head.headers := by
  refine ⟨⟨⟨rfl, rfl, rfl⟩, rfl⟩, by decide +kernel, by decide +kernel, ?_⟩
  rintro ⟨head, hhead, hkept⟩
  have hsent : ((restating .streamed).dispatch { app := (), freshId := ⟨0⟩ }
      asking).run.context.exchange.sent.map (·.status) = some .ok := by decide +kernel
  have hstatus : ((restating .streamed).respond { app := (), freshId := ⟨0⟩ } asking).1.status =
      .notFound := by
    decide +kernel
  rw [hhead, Option.map_some, hkept.status, hstatus] at hsent
  exact absurd hsent (by decide)

end Dispatcher

end HttpDispatch
