import HttpDispatch.Proofs.Context.Range
import HttpDispatch.Proofs.Dispatcher.Unwritten

/-!
# Requests for a part of a resource

A route without filters whose handler serves a resource answers with the whole of it, with the part
that was asked for, or with the news that there is no such part (`Announces`). Whichever call on the
source or on the writer fails once the head is due, what arrives is a beginning of what was
announced; a response that falls short of its announced length counts as cut short, and its exchange
is released (`Delivers`).
-/

namespace HttpDispatch

variable {σ : Type}

theorem Run.dropStream_of_stream_eq_none {r : Run σ} (h : r.stream = none) : r.dropStream = r := by
  unfold dropStream
  rw [h]

theorem Run.settle_of_stream_eq_none {r : Run σ} (h : r.stream = none) :
    r.settle r.events.length = r := by
  unfold settle
  rw [dropStream_of_stream_eq_none h]
  dsimp only
  rw [Nat.sub_self]
  rfl

def Ending.ofExcept {α : Type} : Except DispatchError α → Ending α
  | .ok a => .ok a
  | .error e => .failed e

theorem Program.runWith_ofExcept {α : Type} (route : Run σ → Option (Ending Response) × Run σ)
    (result : Except DispatchError α) (r : Run σ) :
    (ofExcept result : Program σ α).runWith route r = (.ofExcept result, r) := by
  cases result with
  | ok a => rfl
  | error e => rfl

/-- A handler that only serves a resource does to its request what serving it does. -/
theorem Program.run_serveRange (handler : Option (Handler σ)) {r : Run σ} (h : r.stream = none)
    (source : Source) (total : Nat) (contentType : String) :
    (serveRange source total contentType).run handler r =
      (.ofExcept (r.context.serveRange source total contentType).1,
        { r with context := (r.context.serveRange source total contentType).2 }) := by
  have hperform : r.perform (.serveRange source total contentType) =
      ((r.context.serveRange source total contentType).1,
        { r with context := (r.context.serveRange source total contentType).2 }) := by
    rw [Run.perform, Run.onContext, Run.dropStream_of_stream_eq_none h]
  generalize r.context.serveRange source total contentType = result at hperform ⊢
  have hwith : (serveRange source total contentType : Program σ Response).runWith
      (runRoute handler r.nesting.depth) r =
        (.ofExcept result.1, { r with context := result.2 }) := by
    rw [← runWith_ofExcept (runRoute handler r.nesting.depth)]
    change (ofExcept (r.perform (.serveRange source total contentType)).1 :
      Program σ Response).runWith _ (r.perform (.serveRange source total contentType)).2 = _
    rw [hperform]
  have hsettle := Run.settle_of_stream_eq_none (r := { r with context := result.2 }) h
  rw [run, runAndSettle, hwith]
  exact congrArg (Prod.mk _) hsettle

namespace Dispatcher

open Passage

/-- What a head announces in answer to a request for a part, and the bytes that are to follow it. -/
structure Announces (d : Dispatcher σ) (q : RangeRequest) (data : Bytes) (total : Nat)
    (head : ResponseHead) (payload : Bytes) (length : Nat) : Prop where
  acceptRanges : head.headers.getAll .acceptRanges = [.bytesUnit]
  contentLength : head.headers.getAll .contentLength = [.ofNat length]
  full : q = .full → head.status = .ok ∧ head.headers.getAll .contentRange = [] ∧
    length = total ∧ payload = data.take total
  part : ∀ r, q = .part r → head.status = .partialContent ∧
    head.headers.getAll .contentRange = [.ofString (r.contentRange total)] ∧
    r.first ≤ r.last ∧ r.last < total ∧ length = r.last - r.first + 1 ∧
    payload = (data.drop r.first).take length
  unsatisfiable : q = .unsatisfiable → head.status = .rangeNotSatisfiable ∧
    head.headers.getAll .contentRange = [.ofString ("bytes */" ++ toString total)] ∧
    ∃ coding, payload = d.coder.payload coding d.settings.compression.level []

/-- What has arrived of a response by the end of its dispatch. -/
structure Delivers (x : Exchange) (head : ResponseHead) (payload : Bytes) (length : Nat)
    (y : Dispatched σ) : Prop where
  begins : x.Begins head payload y.run.context.exchange
  whole : y.outcome.truncated = false →
    x.Sends head payload y.run.context.exchange ∧ payload.length = length
  closed : y.outcome.truncated = true → y.run.context.exchange.closed = true

theorem Delivers.of_start_eq {x w : Exchange} {head : ResponseHead} {payload : Bytes} {length : Nat}
    {y : Dispatched σ} (h : Delivers w head payload length y)
    (htransport : w.transport = x.transport)
    (hout : w.out = x.out) : Delivers x head payload length y := by
  obtain ⟨hsent, hwritten⟩ := h.begins
  refine ⟨⟨hsent, ?_⟩, fun ht => ?_, h.closed⟩
  · rw [← htransport, ← hout]
    exact hwritten
  · obtain ⟨hsends, hlength⟩ := h.whole ht
    refine ⟨⟨hsends.sent, ?_⟩, hlength⟩
    rw [← htransport, ← hout]
    exact hsends.written

/-- Sending a response that is at least begun adds nothing more; unless it counts as cut short, it
was sent at once. -/
theorem begins_send {x : Exchange} {head : ResponseHead} {payload : Bytes} {r : Response}
    {c : Context} (h : x.Begins head payload (c.commit r).2.exchange) :
    x.Begins head payload (send r c).2.exchange ∧
      ((send r c).2.truncated = false → (c.commit r).1 = .ok ()) ∧
      ((c.commit r).1 = .ok () → (send r c).2 = (c.commit r).2) := by
  unfold send
  generalize c.commit r = result at h ⊢
  obtain ⟨e | ⟨⟩, c'⟩ := result
  · dsimp only
    rw [if_pos h.headersSent]
    refine ⟨h.of_eq rfl rfl, ?_, ?_⟩
    · rintro ⟨⟩
    · rintro ⟨⟩
  · exact ⟨h, fun _ => rfl, fun _ => rfl⟩

theorem delivers_finish {x : Exchange} {head : ResponseHead} {payload : Bytes} {length : Nat}
    {r : Response} {p : Passage σ}
    (h : x.Begins head payload (p.run.context.commit r).2.exchange)
    (hwhole : (p.run.context.commit r).1 = .ok () → (p.run.context.commit r).2.truncated = false →
      x.Sends head payload (p.run.context.commit r).2.exchange ∧ payload.length = length) :
    Delivers x head payload length (finish r p) ∧
      ((p.run.context.commit r).1 = .ok () →
        (finish r p).outcome.truncated = (p.run.context.commit r).2.truncated) := by
  obtain ⟨hbegins, hok, heq⟩ := begins_send h
  unfold finish
  generalize send r p.run.context = result at hbegins hok heq ⊢
  obtain ⟨status, c⟩ := result
  dsimp only at hbegins hok heq ⊢
  cases ht : c.truncated with
  | true =>
      have hclose := c.released_close
      simp only [Bool.or_true, if_true]
      have htruncated : c.close.truncated = true := c.truncated_close.trans ht
      refine ⟨⟨hbegins.of_eq hclose.sent hclose.written, ?_, fun _ => hclose.closed⟩, ?_⟩
      · intro hf
        exact absurd (htruncated.symm.trans hf) Bool.noConfusion
      · intro hcommit
        rw [← heq hcommit, ht]
        exact htruncated
  | false =>
      simp only [Bool.false_eq_true, if_false]
      have hcommit := hok ht
      obtain rfl := heq hcommit
      refine ⟨⟨hbegins.of_eq rfl rfl, fun _ => ?_, ?_⟩, fun _ => rfl⟩
      · obtain ⟨hsends, hlength⟩ := hwhole hcommit ht
        exact ⟨hsends.of_eq rfl rfl, hlength⟩
      · intro hf
        exact absurd (ht.symm.trans hf) Bool.noConfusion

theorem commit_streamed {c : Context} (h : c.exchange.headersSent = true) :
    c.commit .streamed = (.ok (), c) := by
  change c.commitStreamed = _
  rw [Context.commitStreamed, if_pos h]

theorem delivers_finish_streamed {x : Exchange} {head : ResponseHead} {payload : Bytes}
    {length : Nat} {p : Passage σ} (h : x.Begins head payload p.run.context.exchange)
    (hwhole : p.run.context.truncated = false →
      x.Sends head payload p.run.context.exchange ∧ payload.length = length) :
    Delivers x head payload length (finish .streamed p) ∧
      (finish .streamed p).outcome.truncated = p.run.context.truncated := by
  have hcommit := commit_streamed h.headersSent
  have hfinish : _ → Delivers x head payload length (finish .streamed p) ∧ _ :=
    delivers_finish (by rw [hcommit]; exact h)
  rw [hcommit] at hfinish
  obtain ⟨hdelivers, hcut⟩ := hfinish fun _ => hwhole
  exact ⟨hdelivers, hcut rfl⟩

/-- A request has a route without filters, and the check of its roles, if there is one, lets it pass
and does nothing else. The handler is called on the passage `p`. -/
structure Unfiltered (d : Dispatcher σ) (s : Surroundings σ) (x : Exchange)
    (entry : RouteEntry (Handler σ)) (p : Passage σ) : Prop extends AtHandler d s x entry p where
  before : d.routes.beforeFor x.request.path = []
  after : d.routes.afterFor x.request.path = []
  run : p.run = (((d.routed s x entry).enter .beforeFilters).enter .handler).run

variable {d : Dispatcher σ} {s : Surroundings σ} {x : Exchange} {entry : RouteEntry (Handler σ)}
  {p : Passage σ}

/-- Where nobody is asked, a request that has a route without filters comes to its handler. -/
theorem unfiltered_of_access_eq_none (haccess : d.access = none)
    (hroute : d.routes.route? x.request.method x.request.path = some entry)
    (hbefore : d.routes.beforeFor x.request.path = [])
    (hafter : d.routes.afterFor x.request.path = []) :
    Unfiltered d s x entry (((d.routed s x entry).enter .beforeFilters).enter .handler) := by
  refine ⟨⟨hroute, (d.routed s x entry).enter .beforeFilters, ?_, ?_⟩, hbefore, hafter, rfl⟩
  · rw [hbefore]
    rfl
  · rw [checkAccess, haccess]

theorem Unfiltered.dispatch_of_ok (h : Unfiltered d s x entry p) {r : Response} {q : Passage σ}
    (hq : p.invoke (.handler entry.handler) (fun _ => .continued) entry.handler = (.ok r, q)) :
    d.dispatch s x = finish r (q.enter .afterFilters) := by
  obtain ⟨q', hbefore, haccess⟩ := h.passed
  have hpath : (d.routed s x entry).run.context.exchange.request.path = x.request.path := rfl
  rw [dispatch_of_route h.route]
  unfold runRoute runHandler
  simp only
  rw [hpath, hbefore]
  simp only
  rw [haccess]
  simp only
  rw [hq, h.after]
  rfl

theorem Unfiltered.dispatch_of_error (h : Unfiltered d s x entry p) {e : DispatchError}
    {q : Passage σ}
    (hq : p.invoke (.handler entry.handler) (fun _ => .continued) entry.handler = (.error e, q))
    (hsent : q.headersSent = true) :
    ∃ q' : Passage σ, d.dispatch s x = finish .streamed q' ∧ q'.run.context.truncated = true ∧
      q'.run.context.exchange.sent = q.run.context.exchange.sent ∧
      q'.run.context.exchange.out = q.run.context.exchange.out := by
  rw [h.dispatch_eq hq, handleError_of_headersSent d e (p := q.fail e) hsent, h.after]
  exact ⟨_, rfl, rfl, rfl, rfl⟩

theorem exists_invoke_serveRange (hstream : p.run.stream = none) (c : Callback σ) (source : Source)
    (total : Nat) (contentType : String) :
    ∃ q, p.invoke c (fun _ => .continued) (Program.serveRange source total contentType) =
        ((p.run.context.serveRange source total contentType).1, q) ∧
      q.run.context = (p.run.context.serveRange source total contentType).2 := by
  unfold Passage.invoke
  rw [Program.run_serveRange p.handler hstream]
  cases (p.run.context.serveRange source total contentType).1 with
  | ok a => exact ⟨_, rfl, rfl⟩
  | error e => exact ⟨_, rfl, rfl⟩

/-- A handler that has served a part, or failed at it, has said all that there is to say. -/
theorem Unfiltered.delivers_of_serves (h : Unfiltered d s x entry p) {w : Exchange}
    {head : ResponseHead} {slice : Bytes} {length : Nat}
    {r : Attempt Context DispatchError Response}
    (hserves : Context.Serves w head slice length r)
    {q : Passage σ}
    (hq : p.invoke (.handler entry.handler) (fun _ => .continued) entry.handler = (r.1, q))
    (hcontext : q.run.context = r.2) :
    Delivers w head slice length (d.dispatch s x) ∧
      (r.1 = .ok .streamed → (d.dispatch s x).outcome.truncated = r.2.truncated) := by
  have hsent : q.run.context.exchange.headersSent = true := by
    rw [hcontext]
    exact hserves.begins.headersSent
  obtain ⟨e | a, c⟩ := r
  · obtain ⟨q', hdispatch, ht, hs, hout⟩ := h.dispatch_of_error hq hsent
    have hbegins : w.Begins head slice q'.run.context.exchange := by
      refine Exchange.Begins.of_eq hserves.begins ?_ ?_
      · rw [hs, hcontext]
      · rw [hout, hcontext]
    have hcut : q'.run.context.truncated ≠ false := by
      rw [ht]
      decide
    rw [hdispatch]
    refine ⟨(delivers_finish_streamed hbegins fun hf => absurd hf hcut).1, ?_⟩
    rintro ⟨⟩
  · obtain rfl := hserves.streamed a rfl
    obtain rfl : q.run.context = c := hcontext
    obtain ⟨hdelivers, hcut⟩ := delivers_finish_streamed (p := q.enter .afterFilters) hserves.begins
      (hserves.completes .streamed rfl)
    rw [h.dispatch_of_ok hq]
    exact ⟨hdelivers, fun _ => hcut⟩

theorem Unfiltered.found (h : Unfiltered d s x entry p) :
    p.run.stream = none ∧ p.run.context.settings = d.settings ∧ p.run.context.coder = d.coder ∧
      p.run.context.truncated = false ∧ ∃ log, p.run.context.exchange = { x with log } := by
  rw [h.run]
  exact ⟨rfl, rfl, rfl, rfl, _, rfl⟩

theorem delivers_unsatisfiable (d : Dispatcher σ) (data : Bytes) (total : Nat)
    (h : p.run.context.exchange.Awaits) (hsettings : p.run.context.settings = d.settings)
    (hcoder : p.run.context.coder = d.coder) (ht : p.run.context.truncated = false) :
    ∃ head payload length, Announces d .unsatisfiable data total head payload length ∧
      Delivers p.run.context.exchange head payload length (finish (Context.unsatisfiable total) p) ∧
      (p.run.context.exchange.Works →
        (finish (Context.unsatisfiable total) p).outcome.truncated = false) := by
  have he : (Context.unsatisfiable total).body.Encodes p.run.context.codec [] none := .empty
  have hpermits : Status.rangeNotSatisfiable.permitsBody = true := by decide
  generalize hcoding : p.run.context.chosen (Context.unsatisfiable total) none [].length = coding
  generalize hpayload : p.run.context.coder.payload coding
    p.run.context.settings.compression.level [] = payload
  obtain ⟨hbegins, hsends, htruncated⟩ := Context.begins_commit h he hpermits hcoding hpayload rfl
  obtain ⟨hstatus, haccept, hlength, hrange⟩ :=
    p.run.context.announces_unsatisfiable total coding payload.length
  obtain ⟨hdelivers, hcut⟩ := delivers_finish hbegins fun hok _ => ⟨hsends hok, rfl⟩
  refine ⟨_, payload, payload.length,
    ⟨haccept, hlength, ?_, ?_, fun _ => ⟨hstatus, hrange, coding, ?_⟩⟩, hdelivers, fun hworks => ?_⟩
  · rintro ⟨⟩
  · rintro _ ⟨⟩
  · rw [← hcoder, ← hsettings]
    exact hpayload.symm
  · obtain ⟨c', hcommit, -⟩ := Context.sends_commit hworks he hpermits h.wanted hcoding
    rw [hcut (by rw [hcommit]), htruncated]
    exact ht

/-- Of a part, or of the whole, that a handler serves, a beginning arrives. -/
theorem Unfiltered.delivers_sendPart (h : Unfiltered d s x entry p)
    (hawaits : p.run.context.exchange.Awaits) {source : Source} (hseek : source.seekFailure = none)
    {total : Nat} {mediaType : FieldValue} {range : Option ByteRange} {start length : Nat}
    (hbounds : Context.partBounds total range = (start, length)) {q : Passage σ}
    (hq : p.invoke (.handler entry.handler) (fun _ => .continued) entry.handler =
      ((p.run.context.sendPart source total mediaType range).1, q))
    (hcontext : q.run.context = (p.run.context.sendPart source total mediaType range).2) :
    Delivers p.run.context.exchange (p.run.context.partHead total mediaType range)
        ((source.data.drop start).take length) length (d.dispatch s x) ∧
      (p.run.context.exchange.Works → start + length ≤ source.data.length →
        (d.dispatch s x).outcome.truncated = p.run.context.truncated) := by
  have hserves := Context.serves_sendPart hawaits hseek total mediaType range
  rw [hbounds] at hserves
  obtain ⟨hdelivers, hcut⟩ := h.delivers_of_serves hserves hq hcontext
  refine ⟨hdelivers, fun hw hlen => ?_⟩
  obtain ⟨hok, ht⟩ := Context.sendPart_of_works hw hseek total mediaType range
    (by rw [hbounds]; exact hlen)
  exact (hcut hok).trans ht

theorem Unfiltered.delivers_serveRange (h : Unfiltered d s x entry p)
    (hawaits : p.run.context.exchange.Awaits)
    (hpending : p.run.context.exchange.pending.getAll .contentRange = []) {source : Source}
    {total : Nat}
    {contentType : String} (hhandler : entry.handler = Program.serveRange source total contentType)
    (hseek : source.seekFailure = none) :
    ∃ head payload length,
      Announces d (p.run.context.exchange.rangeRequest total) source.data total head payload
        length ∧
      Delivers p.run.context.exchange head payload length (d.dispatch s x) ∧
      (p.run.context.exchange.Works → total ≤ source.data.length →
        (d.dispatch s x).outcome.truncated = false) := by
  obtain ⟨hstream, hsettings, hcoder, htruncated, -⟩ := h.found
  obtain ⟨q, hq, hcontext⟩ :=
    exists_invoke_serveRange hstream (.handler entry.handler) source total contentType
  rw [← hhandler, Context.serveRange_eq] at hq
  rw [Context.serveRange_eq] at hcontext
  generalize hr : p.run.context.exchange.rangeRequest total = request at hq hcontext ⊢
  generalize (FieldValue.ofString? contentType).getD .octets = mediaType at hq hcontext
  cases request with
  | full =>
      have hbounds : Context.partBounds total none = (0, total) := rfl
      obtain ⟨hdelivers, hcut⟩ := h.delivers_sendPart hawaits hseek hbounds hq hcontext
      obtain ⟨hstatus, haccept, hlength, hrange⟩ :=
        p.run.context.announces_partHead total mediaType none
      refine ⟨_, _, total, ⟨haccept, hlength, ?_, ?_, ?_⟩, hdelivers, fun hw hlen => ?_⟩
      · rintro -
        exact ⟨hstatus, hrange.trans hpending, rfl, rfl⟩
      · rintro _ ⟨⟩
      · rintro ⟨⟩
      · rw [hcut hw (by omega)]
        exact htruncated
  | part r =>
      have hbounds : Context.partBounds total (some r) = (r.first, r.last - r.first + 1) := rfl
      obtain ⟨hdelivers, hcut⟩ := h.delivers_sendPart hawaits hseek hbounds hq hcontext
      obtain ⟨hstatus, haccept, hlength, hrange⟩ :=
        p.run.context.announces_partHead total mediaType (some r)
      obtain ⟨hfirst, hlast⟩ := RangeRequest.bounds_of_read hr
      refine ⟨_, _, r.last - r.first + 1, ⟨haccept, hlength, ?_, ?_, ?_⟩,
        hdelivers, fun hw hlen => ?_⟩
      · rintro ⟨⟩
      · rintro _ ⟨⟩
        exact ⟨hstatus, hrange, hfirst, hlast, rfl, rfl⟩
      · rintro ⟨⟩
      · rw [hcut hw (by omega)]
        exact htruncated
  | unsatisfiable =>
      have hfound : (q.enter .afterFilters).run.context =
          (p.run.context.report (.unsatisfiable total)).enter .afterFilters :=
        congrArg (Context.enter · .afterFilters) hcontext
      have hawaits' : (q.enter .afterFilters).run.context.exchange.Awaits := by
        rw [hfound]
        exact ⟨hawaits.closed, hawaits.headersSent, hawaits.wanted⟩
      obtain ⟨head, payload, length, hannounces, hdelivers, hcut⟩ :=
        delivers_unsatisfiable (p := q.enter .afterFilters) d source.data total hawaits'
          (by rw [hfound]; exact hsettings) (by rw [hfound]; exact hcoder)
          (by rw [hfound]; exact htruncated)
      rw [hfound] at hdelivers hcut
      rw [h.dispatch_of_ok hq]
      exact ⟨head, payload, length, hannounces, hdelivers.of_start_eq rfl rfl,
        fun hw _ => hcut (hw.report _)⟩

/-- The dispatch of a request for a resource, or for a part of it, announces what was asked for.
Whatever may fail once the head is due, what arrives is a beginning of the head and of the bytes
that it promises; a response that falls short of them counts as cut short, and its exchange is
released. Where nothing fails and the source holds the resource, the response is not cut short. -/
theorem delivers_dispatch_serveRange (hat : Unfiltered d s x entry p)
    (hget : x.request.method = .get) (hopen : x.closed = false) (hfresh : x.Fresh)
    (hpending : x.pending.getAll .contentRange = [])
    {source : Source} {total : Nat} {contentType : String}
    (hhandler : entry.handler = Program.serveRange source total contentType)
    (hseek : source.seekFailure = none) :
    ∃ head payload length,
      Announces d (x.rangeRequest total) source.data total head payload length ∧
      (d.dispatch s x).outcome.status = head.status ∧
      Delivers x head payload length (d.dispatch s x) ∧
      (x.Works → total ≤ source.data.length → (d.dispatch s x).outcome.truncated = false) := by
  obtain ⟨-, -, -, -, log, hx⟩ := hat.found
  have hawaits : p.run.context.exchange.Awaits := by
    rw [hx]
    refine ⟨hopen, ?_, ?_⟩
    · rw [Exchange.headersSent, hfresh.sent]
      rfl
    · rw [Exchange.isHead, hget]
      rfl
  have hserves := hat.delivers_serveRange hawaits (by rw [hx]; exact hpending) hhandler hseek
  rw [hx] at hserves
  obtain ⟨head, payload, length, hannounces, hdelivers, hcut⟩ := hserves
  have hstatus := (d.reported_dispatch s hfresh).status head hdelivers.begins.sent
  refine ⟨head, payload, length, hannounces, hstatus, hdelivers.of_start_eq rfl rfl, fun hw => ?_⟩
  exact hcut ⟨⟨hw.closed, hw.headersSent, hw.limit⟩, hw.flushFailure⟩

/-- A resource of five bytes, of which each read delivers one. -/
def trickle : Source := { data := [1, 2, 3, 4, 5], portion := fun _ => some 0 }

def trickling : Handler Unit := Program.serveRange trickle 5 "text/plain"

def trickler : Dispatcher Unit :=
  { idle with routes := (RouteTable.empty false 8).registerValid [.route .get "/" [] trickling] }

def tricklerEntry : RouteEntry (Handler Unit) :=
  { method := "GET", pattern := ⟨"/", [], false, false⟩, roles := [], handler := trickling }

def askingForPart : Exchange :=
  .inMemory { method := .get, path := "/",
              headers := Headers.empty.insert .range ⟨Text.encode "bytes=1-3", by decide⟩ } [] {}

def tricklerPassage : Passage Unit :=
  ((trickler.routed { app := (), freshId := ⟨0⟩ } askingForPart tricklerEntry).enter
    .beforeFilters).enter .handler

theorem unfiltered_trickler :
    Unfiltered trickler { app := (), freshId := ⟨0⟩ } askingForPart tricklerEntry
      tricklerPassage := by
  refine unfiltered_of_access_eq_none rfl ?_ ?_ ?_
  · cbv
  · cbv
  · cbv

/-- The three bytes between the ends arrive, one by one. -/
theorem delivers_dispatch_serveRange_trickling :
    Unfiltered trickler { app := (), freshId := ⟨0⟩ } askingForPart tricklerEntry tricklerPassage ∧
      askingForPart.Fresh ∧ askingForPart.Works ∧ askingForPart.rangeRequest 5 = .part ⟨1, 3⟩ ∧
      (trickler.dispatch { app := (), freshId := ⟨0⟩ } askingForPart).outcome.truncated = false ∧
      (trickler.dispatch { app := (), freshId := ⟨0⟩ } askingForPart).outcome.status =
        .partialContent ∧
      (trickler.dispatch { app := (), freshId := ⟨0⟩ }
        askingForPart).run.context.exchange.out.written = [2, 3, 4] := by
  have hfresh : askingForPart.Fresh := ⟨rfl, rfl⟩
  have hworks : askingForPart.Works := ⟨⟨rfl, rfl, rfl⟩, rfl⟩
  have hrequest : askingForPart.rangeRequest 5 = .part ⟨1, 3⟩ := by decide +kernel
  have hhandler : tricklerEntry.handler = Program.serveRange trickle 5 "text/plain" := rfl
  obtain ⟨head, payload, length, hannounces, hstatus, hdelivers, hcut⟩ :=
    delivers_dispatch_serveRange unfiltered_trickler rfl rfl hfresh rfl hhandler rfl
  obtain ⟨hpart, -, -, -, hlength, hpayload⟩ := hannounces.part ⟨1, 3⟩ hrequest
  have ht := hcut hworks (Nat.le_refl 5)
  refine ⟨unfiltered_trickler, hfresh, hworks, hrequest, ht, hstatus.trans hpart, ?_⟩
  rw [(hdelivers.whole ht).1.written, hpayload, hlength]
  rfl

end Dispatcher

end HttpDispatch
