import HttpDispatch.Http.Address
import HttpDispatch.Program.Basic

/-!
# Middleware

A piece of middleware is a pair of hooks around the handlers of some paths: one that may stop a
request, and one that sees the response and how long it took, and changes neither. Two are provided:
one counts requests, the other reports them.
-/

namespace HttpDispatch

/-- A pair of hooks around handlers. -/
structure Middleware (σ : Type) where
  before : Program σ Verdict := pure .proceed
  /-- Runs after the handler; it is given the response and the nanoseconds since the request was
  taken up. -/
  after : Response → Nat → Program σ Unit := fun _ _ => pure ()

/-- The status that a response is sent with, as far as `v` shows: one that was written already has
been sent with the status of the exchange. -/
def Response.effectiveStatus (r : Response) (v : View) : Status :=
  if r.isStreamed then v.status else r.status

namespace Middleware

variable {σ : Type}

def afterFilter (m : Middleware σ) (response : Response) : Program σ Response := do
  let nanos ← Program.elapsed
  m.after response nanos
  pure response

def plain : Middleware σ := {}

/-- Nanoseconds as a word; more than fits is as much as fits. -/
def nanosWord (nanos : Nat) : UInt64 := UInt64.ofNat (min nanos (UInt64.size - 1))

/-- Counts requests. The gauge of requests that are being handled stays at zero if it is told of the
end of a request of whose start it was not told. -/
def counting : Middleware σ where
  before := do
    Program.modifyMetrics Metrics.started
    pure .proceed
  after response nanos := do
    let v ← Program.view
    let m ← Program.metrics
    if m.inFlight = 0 then Program.report .gaugeAtZero
    Program.modifyMetrics (·.finished (response.effectiveStatus v) (nanosWord nanos) v.template)

/-- Reports the start and the end of requests. One that takes longer than the threshold in
nanoseconds, if there is a threshold, is reported as slow. -/
def reporting (threshold : Option Nat) : Middleware σ where
  before := do
    let v ← Program.view
    Program.report (.requestStarted v.id v.request.method v.request.path (v.template.getD "")
      (Text.shownOption (v.request.remote.map SocketAddress.text)))
    pure .proceed
  after response nanos := do
    let v ← Program.view
    Program.report (.requestFinished v.id v.request.method (v.template.getD "")
      (response.effectiveStatus v) (threshold.any (· < nanos)))

end Middleware

def Metrics.mediaType : FieldValue := .ofString "text/plain; version=0.0.4"

def Metrics.handler {σ : Type} : Program σ Response := do
  let m ← Program.metrics
  pure ((Response.text m.render).withField .contentType mediaType)

end HttpDispatch
