import HttpDispatch.Coding.Coder
import HttpDispatch.Context.View
import HttpDispatch.Json.Codec
import HttpDispatch.Json.Shape
import HttpDispatch.Response

/-!
# Contexts

The state of one request while it is dispatched: its exchange, the settings, and what the dispatcher
knows about it. The body of the request is read once and kept.
-/

namespace HttpDispatch

structure Context where
  exchange : Exchange
  settings : Settings := {}
  codec : Codec := .standard false
  coder : Coder
  id : RequestId
  route : Option MatchedRoute := none
  body : Option Bytes := none
  phase : Phase := .routing
  /-- Whether the response was cut short after its head had been sent. -/
  truncated : Bool := false

namespace Context

def view (c : Context) : View where
  id := c.id
  request := c.exchange.request
  route := c.route
  phase := c.phase
  settings := c.settings
  status := c.exchange.status
  pending := c.exchange.pending
  headersSent := c.exchange.headersSent
  attributes := c.exchange.attributes

def onExchange (c : Context) (f : Exchange → Exchange) : Context :=
  { c with exchange := f c.exchange }

def attempt {ε α : Type} (c : Context) (f : Exchange → Attempt Exchange ε α) :
    Attempt Context ε α :=
  Attempt.inside (fun exchange => { c with exchange }) (f c.exchange)

def report (c : Context) (e : LogEvent) : Context := c.onExchange (·.report e)

def enter (c : Context) (p : Phase) : Context := { c with phase := p }

def truncate (c : Context) : Context := { c with truncated := true }

/-- With the identifier of the request among the pending header fields, unless there is one. -/
def stamp (c : Context) : Context :=
  c.onExchange (·.withPending (·.insertNew .requestId c.id.fieldValue))

def bodyBytes (c : Context) : Attempt Context DispatchError Bytes :=
  match c.body with
  | some b => (.ok b, c)
  | none =>
    ((c.attempt Exchange.readBody).mapError .io).andThen fun b c =>
      (.ok b, { c with body := some b })

/-- Bytes as text; a body that is not text is the client's fault. -/
def textOf (b : Bytes) : Except DispatchError String :=
  match Text.decode? b with
  | some s => .ok s
  | none => .error (.http (.badRequest "Request body is not valid UTF-8"))

def malformedBody (e : CodecError) : DispatchError :=
  .http ((HttpError.badRequest "Malformed JSON body").withDetail "cause" e.message)

def bodyJson (c : Context) : Attempt Context DispatchError Json :=
  c.bodyBytes.andThen fun b c => ((c.codec.decode b).mapError malformedBody, c)

def setStatus (c : Context) (s : Status) : Attempt Context DispatchError Unit :=
  (c.attempt (·.setStatus s)).mapError .exchange

def setField (c : Context) (n : FieldName) (v : FieldValue) : Attempt Context DispatchError Unit :=
  if c.exchange.headersSent then (.error (.exchange .headersAlreadySent), c)
  else (.ok (), c.onExchange (·.withPending (·.insert n v)))

def sendHeaders (c : Context) : Attempt Context DispatchError Unit :=
  (c.attempt Exchange.sendHeaders).mapError .exchange

def close (c : Context) : Context :=
  match c.attempt Exchange.close with
  | (.ok (), c) => c
  | (.error e, c) => c.report (.closeFailed c.id e)

end Context

/-- A JSON body of an unexpected shape is the client's fault. -/
def Json.ShapeError.toDispatchError (e : Json.ShapeError) : DispatchError :=
  .http ((HttpError.badRequest "Unexpected JSON body").withDetail "cause" e.message)

end HttpDispatch
