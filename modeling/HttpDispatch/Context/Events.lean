import HttpDispatch.Context.Basic
import HttpDispatch.EventStream.Session

/-!
# Opening event streams

An exchange becomes an event stream when its head is sent; after that the stream writes to the
connection on its own. The answer to a request for the head only goes nowhere after the head.
-/

namespace HttpDispatch.Context

def emitter (c : Context) (state : EmitterState) : Emitter :=
  { state, out := c.exchange.out, log := c.exchange.log }

def withEmitter (c : Context) (e : Emitter) : Context :=
  c.onExchange fun x => { x with out := e.out, log := e.log }

/-- Sends the hint that the settings ask for, and reports the new stream. -/
def announceEvents {κ : Type} (c : Context) (state : EmitterState) :
    Attempt Context DispatchError (EventStream κ) :=
  let e := c.emitter state
  let e := match c.settings.events.retryMillis with
    | none => e
    | some millis =>
      match e.emit (.retry millis) with
      | (.ok (), e) => e
      | (.error _, e) => { e with log := e.log ++ [.gaveUpBeforeRetry c.id] }
  let c := (c.withEmitter e).report (.eventStreamOpened c.id)
  (.ok { id := c.id, remote := c.exchange.request.remote, emitter := e }, c)

def openEvents {κ : Type} (c : Context) : Attempt Context DispatchError (EventStream κ) :=
  if c.exchange.headersSent then (.error (.exchange .headersAlreadySent), c)
  else
    (c.setStatus .ok).andThen fun _ c =>
    (c.setField .contentType .eventStream).andThen fun _ c =>
    (c.setField .cacheControl .noCache).andThen fun _ c =>
    (c.setField .accelBuffering .no).andThen fun _ c =>
    (c.stamp.onExchange (·.withPending (·.erase .contentLength))).sendHeaders.andThen fun _ c =>
    if c.exchange.isHead then c.announceEvents .muted
    else match c.exchange.output with
      | .error e => (.error (.exchange e), c)
      | .ok () =>
        ((c.attempt Exchange.flush).mapError .io).andThen fun _ c =>
        ((c.attempt Exchange.detach).mapError .exchange).andThen fun _ c =>
        c.announceEvents .sending

end HttpDispatch.Context
