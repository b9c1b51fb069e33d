import HttpDispatch.Context.Commit
import HttpDispatch.Context.Events
import HttpDispatch.Context.Range
import HttpDispatch.Proofs.EventStream.Report
import HttpDispatch.Proofs.Stream.Report

/-!
# The state of a request does not depend on the report

Whatever is attempted on the state of a request, and whichever response is committed, the report of
its exchange is not read.
-/

namespace HttpDispatch.Context

variable {α ε : Type} {c c' : Context}

def unreported (c : Context) : Context := c.onExchange Exchange.unreported

theorem exists_log (h : c.unreported = c'.unreported) :
    ∃ l, c' = { c with exchange := { c.exchange with log := l } } := by
  refine ⟨c'.exchange.log, ?_⟩
  have hc : c' =
      { c'.unreported with exchange := { c'.unreported.exchange with log := c'.exchange.log } } :=
        rfl
  rw [hc, ← h]
  rfl

theorem unreported_exchange (h : c.unreported = c'.unreported) :
    c.exchange.unreported = c'.exchange.unreported :=
  (congrArg Context.exchange h :)

theorem unreported_withExchange (h : c.unreported = c'.unreported) {x y : Exchange}
    (hx : x.unreported = y.unreported) :
    ({ c with exchange := x } : Context).unreported =
      ({ c' with exchange := y } : Context).unreported := by
  obtain ⟨l, rfl⟩ := exists_log h
  exact congrArg (fun x => { c with exchange := x }) hx

theorem unreported_onExchange (h : c.unreported = c'.unreported) {f g : Exchange → Exchange}
    (hf : (f c.exchange).unreported = (g c'.exchange).unreported) :
    (c.onExchange f).unreported = (c'.onExchange g).unreported :=
  unreported_withExchange h hf

theorem agrees_attempt {f g : Exchange → Attempt Exchange ε α} (h : c.unreported = c'.unreported)
    (hf : Agrees Exchange.unreported (f c.exchange) (g c'.exchange)) :
    Agrees unreported (c.attempt f) (c'.attempt g) :=
  hf.inside fun _ _ hx => unreported_withExchange h hx

theorem unreported_withPending (h : c.unreported = c'.unreported) (f : Headers → Headers) :
    (c.onExchange (·.withPending f)).unreported = (c'.onExchange (·.withPending f)).unreported :=
  unreported_onExchange h (Exchange.unreported_withPending (unreported_exchange h) f)

theorem unreported_stamp (h : c.unreported = c'.unreported) :
    c.stamp.unreported = c'.stamp.unreported :=
  (congrArg stamp h :)

theorem agrees_bodyBytes (h : c.unreported = c'.unreported) :
    Agrees unreported c.bodyBytes c'.bodyBytes := by
  have hread := (agrees_attempt h (Exchange.agrees_readBody (unreported_exchange h))).mapError
    DispatchError.io
  have hbody : c.body = c'.body := (congrArg Context.body h :)
  unfold bodyBytes
  rw [hbody]
  split
  · exact .of_eq h
  · refine hread.andThen fun b c c' h => .of_eq ?_
    exact (congrArg (fun c : Context => { c with body := some b }) h :)

theorem agrees_bodyJson (h : c.unreported = c'.unreported) :
    Agrees unreported c.bodyJson c'.bodyJson := by
  refine (agrees_bodyBytes h).andThen fun b c c' h => ?_
  have hcodec : c.codec = c'.codec := (congrArg Context.codec h :)
  rw [hcodec]
  exact .of_eq h

theorem agrees_setStatus (s : Status) (h : c.unreported = c'.unreported) :
    Agrees unreported (c.setStatus s) (c'.setStatus s) :=
  (agrees_attempt h (Exchange.agrees_setStatus s (unreported_exchange h))).mapError _

theorem headersSent_eq (h : c.unreported = c'.unreported) :
    c.exchange.headersSent = c'.exchange.headersSent :=
  (congrArg (fun c : Context => c.exchange.headersSent) h :)

theorem agrees_setField (n : FieldName) (v : FieldValue) (h : c.unreported = c'.unreported) :
    Agrees unreported (c.setField n v) (c'.setField n v) := by
  unfold setField
  rw [headersSent_eq h]
  exact .ite (fun _ => .of_eq h) fun _ => .of_eq (unreported_withPending h _)

theorem agrees_sendHeaders (h : c.unreported = c'.unreported) :
    Agrees unreported c.sendHeaders c'.sendHeaders :=
  (agrees_attempt h (Exchange.agrees_sendHeaders (unreported_exchange h))).mapError _

theorem unreported_close (h : c.unreported = c'.unreported) :
    c.close.unreported = c'.close.unreported := by
  have hclose := agrees_attempt h (Exchange.agrees_close (unreported_exchange h))
  unfold close
  refine hclose.elim fun a c c' h => ?_
  rcases a with e | ⟨⟩
  · exact h
  · exact h

theorem agrees_copyPart (status : Status) (source : Source) (length : Nat)
    (h : c.unreported = c'.unreported) :
    Agrees unreported (c.copyPart status source length) (c'.copyPart status source length) := by
  obtain ⟨l, rfl⟩ := exists_log h
  have hcopy : Agrees Copy.unreported
      (Copy.copyRange ⟨source, c.exchange.out, c.exchange.log⟩ length c.settings.range.chunkSize)
      (Copy.copyRange ⟨source, c.exchange.out, l⟩ length c.settings.range.chunkSize) :=
    Copy.agrees_run _ _ _ _ rfl
  unfold copyPart
  simp only
  refine hcopy.elim fun a t t' ht => ?_
  obtain ⟨l', rfl⟩ := Copy.exists_log ht
  rcases a with e | r
  · exact .of_eq rfl
  · simp only
    cases r.completed with
    | true => exact .of_eq rfl
    | false => exact .of_eq rfl

theorem agrees_sendPart (source : Source) (total : Nat) (mediaType : FieldValue)
    (range : Option ByteRange) (h : c.unreported = c'.unreported) :
    Agrees unreported (c.sendPart source total mediaType range)
      (c'.sendPart source total mediaType range) := by
  unfold sendPart
  simp only
  generalize (if range.isSome = true then Status.partialContent else Status.ok) = status
  generalize (range.map (·.length)).getD total = length
  split
  · exact .of_eq h
  · next source _ =>
    refine (agrees_setStatus status h).andThen fun _ c c' h => ?_
    refine (agrees_setField _ _ h).andThen fun _ c c' h => ?_
    refine (agrees_setField _ _ h).andThen fun _ c c' h => ?_
    refine (agrees_setField _ _ h).andThen fun _ c c' h => ?_
    refine Agrees.andThen ?_ fun _ c c' h => ?_
    · cases range with
      | none => exact .of_eq h
      | some r => exact agrees_setField _ _ h
    · refine (agrees_sendHeaders (unreported_stamp h)).andThen fun _ c c' h => ?_
      have hhead : c.exchange.isHead = c'.exchange.isHead :=
        (congrArg (fun c : Context => c.exchange.isHead) h :)
      rw [hhead]
      exact .ite (fun _ => .of_eq h) fun _ => agrees_copyPart status source length h

theorem agrees_serveRange (source : Source) (total : Nat) (contentType : String)
    (h : c.unreported = c'.unreported) :
    Agrees unreported (c.serveRange source total contentType)
      (c'.serveRange source total contentType) := by
  have hrange : c.exchange.request.headers.get? .range = c'.exchange.request.headers.get? .range :=
    (congrArg (fun c : Context => c.exchange.request.headers.get? .range) h :)
  unfold serveRange
  simp only
  rw [hrange]
  split
  · exact .of_eq h
  · exact agrees_sendPart _ _ _ _ h
  · exact agrees_sendPart _ _ _ _ h

theorem agrees_announceEvents {κ : Type} (state : EmitterState) (h : c.unreported = c'.unreported) :
    Agrees unreported
      (Attempt.map EventStream.unreported
        (c.announceEvents state : Attempt Context DispatchError (EventStream κ)))
      (Attempt.map EventStream.unreported
        (c'.announceEvents state : Attempt Context DispatchError (EventStream κ))) := by
  obtain ⟨l, rfl⟩ := exists_log h
  unfold announceEvents
  simp only
  cases c.settings.events.retryMillis with
  | none => exact ⟨rfl, rfl⟩
  | some millis =>
      have hemit : Agrees Emitter.unreported ((c.emitter state).emit (.retry millis))
          (({ c with exchange := { c.exchange with log := l } } : Context).emitter state |>.emit
            (.retry millis)) := Emitter.agrees_emit _ rfl
      simp only
      refine hemit.elim fun a e e' he => ?_
      obtain ⟨l', rfl⟩ := Emitter.exists_log he
      rcases a with e | ⟨⟩
      · exact ⟨rfl, rfl⟩
      · exact ⟨rfl, rfl⟩

theorem agrees_openEvents {κ : Type} (h : c.unreported = c'.unreported) :
    Agrees unreported
      (Attempt.map EventStream.unreported
        (c.openEvents : Attempt Context DispatchError (EventStream κ)))
      (Attempt.map EventStream.unreported
        (c'.openEvents : Attempt Context DispatchError (EventStream κ))) := by
  unfold openEvents
  rw [headersSent_eq h]
  split
  · exact .of_eq h
  · simp only [Attempt.map_andThen]
    refine (agrees_setStatus .ok h).andThen fun _ c c' h => ?_
    refine (agrees_setField _ _ h).andThen fun _ c c' h => ?_
    refine (agrees_setField _ _ h).andThen fun _ c c' h => ?_
    refine (agrees_setField _ _ h).andThen fun _ c c' h => ?_
    have hready := unreported_withPending (unreported_stamp h) (·.erase .contentLength)
    refine (agrees_sendHeaders hready).andThen fun _ c c' h => ?_
    have hhead : c.exchange.isHead = c'.exchange.isHead :=
      (congrArg (fun c : Context => c.exchange.isHead) h :)
    rw [hhead]
    split
    · exact agrees_announceEvents .muted h
    · rw [Exchange.output_eq (unreported_exchange h)]
      split
      · exact .of_eq h
      · simp only [Attempt.map_andThen]
        have hflush := agrees_attempt h (Exchange.agrees_flush (unreported_exchange h))
        refine (hflush.mapError _).andThen fun _ c c' h => ?_
        have hdetach := agrees_attempt h (Exchange.agrees_detach (unreported_exchange h))
        refine (hdetach.mapError _).andThen fun _ c c' h => ?_
        exact agrees_announceEvents .sending h

theorem agrees_commitStreamed (h : c.unreported = c'.unreported) :
    Agrees unreported c.commitStreamed c'.commitStreamed := by
  unfold commitStreamed
  rw [headersSent_eq h]
  exact .ite (fun _ => .of_eq h) fun _ => agrees_sendHeaders (unreported_stamp h)

theorem agrees_commitBuffered (status : Status) (fields : Headers) (body : Bytes)
    (mediaType : Option FieldValue) (h : c.unreported = c'.unreported) :
    Agrees unreported (c.commitBuffered status fields body mediaType)
      (c'.commitBuffered status fields body mediaType) := by
  unfold commitBuffered
  refine (agrees_setStatus status h).andThen fun _ c c' h => ?_
  obtain ⟨l, rfl⟩ := exists_log h
  refine .ite (fun _ => agrees_sendHeaders rfl) fun _ => agrees_attempt rfl ?_
  exact Exchange.agrees_sendBody _ _ _ _ rfl

theorem agrees_commit (r : Response) (h : c.unreported = c'.unreported) :
    Agrees unreported (c.commit r) (c'.commit r) := by
  have hcodec : c.codec = c'.codec := (congrArg Context.codec h :)
  unfold commit
  rw [hcodec]
  split
  · exact .of_eq h
  · exact agrees_commitStreamed h
  · exact agrees_commitBuffered _ _ _ _ h

end HttpDispatch.Context
