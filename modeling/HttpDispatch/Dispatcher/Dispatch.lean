import HttpDispatch.Context.Commit
import HttpDispatch.Dispatcher.Basic
import HttpDispatch.Dispatcher.Passage

/-!
# Dispatching

A request that has no route is answered by an error, and no filter sees it. Any other runs through
the filters before its handler, until one of them halts it or fails; through the access check and
the handler, if no filter did; and through all filters after the handler. A failure becomes a
response at once, unless the head of another response has been sent: then that one is cut short. In
the end the response is sent.
-/

namespace HttpDispatch

/-- What a request finds when it arrives. -/
structure Surroundings (σ : Type) where
  app : σ
  metrics : Metrics := {}
  /-- The identifier of the request, if the client gives none. -/
  freshId : RequestId
  elapsed : Nat := 0
  nesting : Nesting := {}

structure Outcome where
  id : RequestId
  /-- The status that was sent, or would have been. -/
  status : Status
  route : Option String
  error : Option Category
  truncated : Bool
deriving DecidableEq, Repr

structure Dispatched (σ : Type) where
  outcome : Outcome
  run : Run σ
  journal : List (Step σ)

namespace Dispatcher

variable {σ : Type}

def unhandledReport (id : RequestId) (e : DispatchError) : LogEvent :=
  match e.status? with
  | some s => if s.isServerError then .unhandledError id e else .defaultMapping id s e
  | none => .unhandledError id e

/-- The response to an error. Once the head has been sent there is nothing left to say. -/
def handleError (d : Dispatcher σ) (e : DispatchError) (p : Passage σ) : Response × Passage σ :=
  let p := p.enter .error
  if p.headersSent then (.streamed, (p.report (.errorAfterHeaders p.id e)).truncate)
  else match d.errorHandlers.find? e.category with
    | none => (.ofError e p.acceptsJson, p.report (unhandledReport p.id e))
    | some (c, h) =>
      let p := p.report (.invokingHandler p.id e.category c)
      match p.invoke (.errorHandler c e) (fun _ => .continued) (h e) with
      | (.ok r, p) => (r, p)
      | (.error failure, p) =>
        let p := p.report (.handlerFailed p.id e failure)
        if p.headersSent then (.streamed, p.truncate) else (.internalError p.acceptsJson, p)

/-- Runs the filters before the handler, up to the first that halts the request or fails. -/
def runBefore (d : Dispatcher σ) :
    List (FilterEntry (BeforeFilter σ)) → Passage σ → Option Response × Passage σ
  | [], p => (none, p)
  | f :: fs, p =>
    match p.invoke (.before f.filter) Verdict.course f.filter with
    | (.ok .proceed, p) => d.runBefore fs p
    | (.ok (.halt r), p) => (some r, p.report (.halted p.id r.status))
    | (.error e, p) =>
      match d.handleError e (p.fail e) with
      | (r, p) => (some r, p)

def checkAccess (d : Dispatcher σ) (roles : List String) (p : Passage σ) :
    Except DispatchError Unit × Passage σ :=
  match d.access with
  | none => (.ok (), p)
  | some allow => p.invoke (.access roles) (fun _ => .continued) (allow roles)

def runHandler (d : Dispatcher σ) (roles : List String) (h : Handler σ) (p : Passage σ) :
    Response × Passage σ :=
  let p := p.enter .handler
  match d.checkAccess roles p with
  | (.error e, p) => d.handleError e (p.fail e)
  | (.ok (), p) =>
    match p.invoke (.handler h) (fun _ => .continued) h with
    | (.error e, p) => d.handleError e (p.fail e)
    | (.ok r, p) => (r, p)

/-- Runs the filters after the handler. The response to a failure takes the place of
the response. -/
def runAfter (d : Dispatcher σ) :
    List (FilterEntry (AfterFilter σ)) → Response → Passage σ → Response × Passage σ
  | [], r, p => (r, p)
  | f :: fs, r, p =>
    match p.invoke (.after f.filter) (fun _ => .continued) (f.filter r) with
    | (.ok r, p) => d.runAfter fs r p
    | (.error e, p) =>
      match d.handleError e ((p.report (.afterFilterFailed p.id e.category)).fail e) with
      | (r, p) => d.runAfter fs r (p.enter .afterFilters)

def runRoute (d : Dispatcher σ) (entry : RouteEntry (Handler σ)) (p : Passage σ) :
    Response × Passage σ :=
  let path := p.run.context.exchange.request.path
  match d.runBefore (d.routes.beforeFor path) (p.enter .beforeFilters) with
  | (some r, p) => d.runAfter (d.routes.afterFor path) r (p.enter .afterFilters)
  | (none, p) =>
    match d.runHandler entry.roles entry.handler p with
    | (r, p) => d.runAfter (d.routes.afterFor path) r (p.enter .afterFilters)

/-- Sends a response: the status that it has come to. If it cannot be sent and nothing else has
been, the client is told so. -/
def send (r : Response) (c : Context) : Status × Context :=
  match c.commit r with
  | (.ok (), c) => (r.status, c)
  | (.error e, c) =>
    if c.exchange.headersSent then (r.status, (c.report (.commitCutShort c.id e)).truncate)
    else
      let fallback := Response.internalError c.exchange.request.headers.acceptsJson
      match (c.report (.commitFailed c.id e)).commit fallback with
      | (.ok (), c) => (fallback.status, c)
      | (.error e, c) => (fallback.status, (c.report (.fallbackFailed c.id e)).truncate)

/-- Sends the response, and releases the exchange if it was cut short. -/
def finish (r : Response) (p : Passage σ) : Dispatched σ :=
  match send r p.run.context with
  | (status, c) =>
    let status := if r.isStreamed || c.truncated then c.exchange.status else status
    let c := (if c.truncated then c.close else c).enter .done
    let outcome : Outcome :=
      { id := c.id, status, route := c.view.template, error := p.failure, truncated := c.truncated }
    let request := c.exchange.request
    let c := c.report (.dispatched c.id request.method request.path (outcome.route.getD "") status
      c.truncated)
    { outcome, run := { p.run with context := c }, journal := p.journal }

def arrive (d : Dispatcher σ) (s : Surroundings σ) (x : Exchange) : Passage σ :=
  let context : Context :=
    { exchange := x, settings := d.settings, codec := d.codec, coder := d.coder,
      id := (RequestId.inbound? x.request.headers).getD s.freshId }
  { run :=
      { context, app := s.app, metrics := s.metrics, elapsed := s.elapsed, nesting := s.nesting } }

def dispatch (d : Dispatcher σ) (s : Surroundings σ) (x : Exchange) : Dispatched σ :=
  let p := d.arrive s x
  let request := x.request
  let p := p.report (.dispatchStarted p.id request.method request.path)
  let p := p.onContext (·.onExchange
    (·.reportAll (d.routes.routingReport request.method request.path)))
  match d.routes.route? request.method request.path with
  | none =>
    let e := DispatchError.http .notFound
    match d.handleError e (p.fail e) with
    | (r, p) => finish r p
  | some entry =>
    let p := { p with handler := some entry.handler }.onContext
      fun c => { c with route := some entry.matched }
    match d.runRoute entry p with
    | (r, p) => finish r p

end Dispatcher

end HttpDispatch
