import HttpDispatch.Dispatcher.Dispatch
import HttpDispatch.Exchange.Head

/-!
# Serving connections

A connection carries one request. A request that can be read is dispatched, and the exchange
released after that; one that cannot is rejected with a short response, or not answered at all.
-/

namespace HttpDispatch

/-- A server: what serves requests, and how much of a request it accepts. -/
structure Server (σ : Type) where
  dispatcher : Dispatcher σ
  limits : RequestLimits := {}

structure Served (σ : Type) where
  out : Writer
  dispatched : Option (Dispatched σ)

namespace Server

variable {σ : Type}

def serve (server : Server σ) (s : Surroundings σ) (source : Source) (out : Writer)
    (remote : Option SocketAddress) : Served σ :=
  match Exchange.accept source out remote server.limits with
  | .ok (_, x) =>
    let d := server.dispatcher.dispatch s x
    { out := d.run.context.exchange.close.2.out, dispatched := some d }
  | .error e =>
    match e.status? with
    | none => { out, dispatched := none }
    | some status => { out := (out.reject status).2, dispatched := none }

end Server

end HttpDispatch
