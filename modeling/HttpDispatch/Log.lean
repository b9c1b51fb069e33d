import HttpDispatch.Category
import HttpDispatch.RequestId

/-!
# Log events

What the library reports while it works, as one inductive type: a constructor per kind of event,
with the facts it carries. The level, the message and the named fields of an event are functions on
it.
-/

namespace HttpDispatch

/-- How important an event is, from the most verbose to the most urgent. -/
inductive LogLevel where
  | trace
  | debug
  | info
  | warn
  | error
deriving DecidableEq, Repr

def LogLevel.name : LogLevel → String
  | .trace => "TRACE"
  | .debug => "DEBUG"
  | .info => "INFO"
  | .warn => "WARN"
  | .error => "ERROR"

inductive LogValue where
  | text (s : String)
  | number (n : Nat)
  | flag (b : Bool)
deriving DecidableEq, Repr

inductive LogEvent where
  -- setting up
  | handlerRegistered (category : Category)
  | handlerReplaced (category : Category)
  | routeRegistered (method pattern : String) (segments : Nat)
  | tableLoaded (routes before after : Nat) (summary : String)
  -- routing
  | matchAttempt (method : Method) (path : String)
  | unsupportedMethod (method : Method)
  | routeMatched (method : Method) (path pattern : String)
  | noRoute (method : Method) (path : String)
  -- dispatching
  | dispatchStarted (id : RequestId) (method : Method) (path : String)
  | halted (id : RequestId) (status : Status)
  | afterFilterFailed (id : RequestId) (category : Category)
  | errorAfterHeaders (id : RequestId) (error : DispatchError)
  | invokingHandler (id : RequestId) (category handler : Category)
  | handlerFailed (id : RequestId) (cause failure : DispatchError)
  | defaultMapping (id : RequestId) (status : Status) (error : DispatchError)
  | unhandledError (id : RequestId) (error : DispatchError)
  | commitCutShort (id : RequestId) (error : DispatchError)
  | commitFailed (id : RequestId) (error : DispatchError)
  | fallbackFailed (id : RequestId) (error : DispatchError)
  | dispatched (id : RequestId) (method : Method) (path pattern : String) (status : Status)
      (truncated : Bool)
  | panicked (id : RequestId) (phase reason : String)
  | closeFailed (id : RequestId) (cause : IoError)
  | invalidHeader (name : String)
  -- hooks around routes
  | requestStarted (id : RequestId) (method : Method) (path pattern remote : String)
  | requestFinished (id : RequestId) (method : Method) (pattern : String) (status : Status)
      (slow : Bool)
  | gaugeAtZero
  -- bodies
  | bodyCompressed (coding : String) (plain compressed : Nat)
  | streamFailed (cause : IoError) (written : Nat)
  | streamDropped (cause : IoError)
  | sourceEnded (expected written : Nat)
  | rangeWriteFailed (cause : IoError) (written expected : Nat)
  | rangeFlushFailed (cause : IoError) (written : Nat)
  | unsatisfiable (total : Nat)
  | rangeServed (status : Status) (written : Nat) (completed : Bool)
  -- event streams
  | eventWriteFailed (cause : IoError)
  | eventFlushFailed (cause : IoError)
  | nobodyWaiting (id : RequestId)
  | eventStreamClosed (id : RequestId)
  | eventStreamParked (id : RequestId)
  | gaveUpBeforeRetry (id : RequestId)
  | eventStreamOpened (id : RequestId)
deriving DecidableEq, Repr

namespace LogEvent

def level : LogEvent → LogLevel
  | handlerRegistered .. | handlerReplaced .. | routeRegistered .. | matchAttempt ..
  | unsupportedMethod .. | routeMatched .. | noRoute .. | dispatchStarted .. | halted ..
  | invokingHandler .. | defaultMapping .. | requestStarted .. | bodyCompressed ..
  | streamDropped .. | unsatisfiable .. | rangeServed .. | eventFlushFailed .. | nobodyWaiting ..
  | eventStreamParked .. | gaveUpBeforeRetry .. => .debug
  | tableLoaded .. | dispatched .. | eventStreamClosed .. | eventStreamOpened .. => .info
  | requestFinished _ _ _ _ slow => if slow then .warn else .info
  | afterFilterFailed .. | errorAfterHeaders .. | commitCutShort .. | fallbackFailed ..
  | closeFailed .. | invalidHeader .. | streamFailed .. | sourceEnded .. | rangeWriteFailed ..
  | rangeFlushFailed .. | eventWriteFailed .. => .warn
  | handlerFailed .. | unhandledError .. | commitFailed .. | panicked .. => .error
  | gaugeAtZero => .trace

def message : LogEvent → String
  | handlerRegistered .. => "Exception handler registered"
  | handlerReplaced .. => "Exception handler replaced"
  | routeRegistered .. => "Route registered"
  | tableLoaded .. => "Routing table loaded"
  | matchAttempt .. => "Route match attempt"
  | unsupportedMethod .. => "Unsupported method"
  | routeMatched .. => "Route matched"
  | noRoute .. => "No route matched"
  | dispatchStarted .. => "Dispatch started"
  | halted .. => "Before-filter halted request"
  | afterFilterFailed .. => "After-filter failed"
  | errorAfterHeaders .. => "Error after response headers were sent, truncating"
  | invokingHandler .. => "Invoking exception handler"
  | handlerFailed .. => "Exception handler failed"
  | defaultMapping .. => "Unhandled HTTP error, default mapping"
  | unhandledError .. => "Unhandled error, responding 500"
  | commitCutShort .. => "Response commit failed after headers were sent"
  | commitFailed .. => "Response commit failed, sending 500"
  | fallbackFailed .. => "Fallback response failed"
  | dispatched .. => "Request dispatched"
  | panicked .. => "Panic during dispatch"
  | closeFailed .. => "Failed to close exchange"
  | invalidHeader .. => "Ignoring invalid response header"
  | requestStarted .. => "Request started"
  | requestFinished _ _ _ _ slow => if slow then "Slow request" else "Request finished"
  | gaugeAtZero => "in-flight gauge already at zero"
  | bodyCompressed .. => "Response body compressed"
  | streamFailed .. => "Response stream write failed"
  | streamDropped .. => "Response stream finished on drop with error"
  | sourceEnded .. => "Range source ended early"
  | rangeWriteFailed .. => "Range write failed, closing"
  | rangeFlushFailed .. => "Range flush failed, closing"
  | unsatisfiable .. => "Unsatisfiable range requested"
  | rangeServed .. => "Range served"
  | eventWriteFailed .. => "SSE write failed, closing stream"
  | eventFlushFailed .. => "SSE flush on close failed"
  | nobodyWaiting .. => "SSE session no longer waiting"
  | eventStreamClosed .. => "SSE stream closed"
  | eventStreamParked .. => "SSE session parked"
  | gaveUpBeforeRetry .. => "Client gone before SSE retry hint"
  | eventStreamOpened .. => "SSE stream opened"

def fields : LogEvent → List (String × LogValue)
  | handlerRegistered c | handlerReplaced c => [("category", .text c.describe)]
  | routeRegistered m p n =>
    [("method", .text m), ("route_pattern", .text p), ("segments", .number n)]
  | tableLoaded n b a s =>
    [("routes_count", .number n), ("before_filters", .number b), ("after_filters", .number a),
      ("routes_summary", .text s), ("routing_algorithm", .text "segment_buckets")]
  | matchAttempt m p | noRoute m p => [("method", .text m.name), ("path", .text p)]
  | unsupportedMethod m => [("method", .text m.name)]
  | routeMatched m p t =>
    [("method", .text m.name), ("path", .text p), ("route_pattern", .text t)]
  | dispatchStarted id m p =>
    [("request_id", .text id.text), ("method", .text m.name), ("path", .text p)]
  | halted id s => [("request_id", .text id.text), ("status", .number s.code)]
  | afterFilterFailed id c => [("request_id", .text id.text), ("category", .text c.describe)]
  | errorAfterHeaders id e | unhandledError id e =>
    [("request_id", .text id.text), ("category", .text e.category.describe),
      ("error", .text e.message)]
  | invokingHandler id c h =>
    [("request_id", .text id.text), ("error_category", .text c.describe),
      ("handler_category", .text h.describe)]
  | handlerFailed id e f =>
    [("request_id", .text id.text), ("original", .text e.message), ("error", .text f.message)]
  | defaultMapping id s e =>
    [("request_id", .text id.text), ("status", .number s.code), ("error", .text e.message)]
  | commitCutShort id e | commitFailed id e | fallbackFailed id e =>
    [("request_id", .text id.text), ("error", .text e.message)]
  | dispatched id m p t s cut =>
    [("request_id", .text id.text), ("method", .text m.name), ("path", .text p),
      ("route_pattern", .text t), ("status", .number s.code), ("truncated", .flag cut)]
  | panicked id phase reason =>
    [("request_id", .text id.text), ("phase", .text phase), ("panic", .text reason)]
  | closeFailed id e => [("request_id", .text id.text), ("error", .text e.message)]
  | invalidHeader n => [("header", .text n)]
  | requestStarted id m p t r =>
    [("request_id", .text id.text), ("method", .text m.name), ("path", .text p),
      ("route", .text t), ("remote_addr", .text r)]
  | requestFinished id m t s _ =>
    [("request_id", .text id.text), ("method", .text m.name), ("route", .text t),
      ("status", .number s.code)]
  | gaugeAtZero => []
  | bodyCompressed coding n k =>
    [("encoding", .text coding), ("original_bytes", .number n), ("compressed_bytes", .number k)]
  | streamFailed e n => [("error", .text e.message), ("bytes_written", .number n)]
  | streamDropped e | eventWriteFailed e | eventFlushFailed e => [("error", .text e.message)]
  | sourceEnded n k => [("expected", .number n), ("written", .number k)]
  | rangeWriteFailed e k n =>
    [("error", .text e.message), ("written", .number k), ("expected", .number n)]
  | rangeFlushFailed e k => [("error", .text e.message), ("written", .number k)]
  | unsatisfiable n => [("total", .number n)]
  | rangeServed s k done =>
    [("status", .number s.code), ("bytes_written", .number k), ("completed", .flag done)]
  | nobodyWaiting id | eventStreamClosed id | eventStreamParked id | gaveUpBeforeRetry id
  | eventStreamOpened id => [("request_id", .text id.text)]

end LogEvent

end HttpDispatch
