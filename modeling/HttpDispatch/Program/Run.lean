import HttpDispatch.Context.Events
import HttpDispatch.Context.Range
import HttpDispatch.Program.Basic
import HttpDispatch.Stream.ResponseStream

/-!
# Running programs

A program runs on the state of its request, the event streams that have been opened on it, the state
of the application and the metrics. A response stream borrows the request: any other call on the
request lets the stream go. What a program leaves open when it ends, however it ends, is let go,
too.
-/

namespace HttpDispatch

structure HeldStream (σ : Type) where
  stream : EventStream (σ → σ)
  held : Bool := true

/-- How deeply handlers may call themselves, and what the panic says that a deeper call ends in.
Programs know of no such bound: it stands for the room that there is for nested calls, and may be
any. -/
structure Nesting where
  depth : Nat := 100
  reason : String := "handlers are nested too deeply"

structure Run (σ : Type) where
  context : Context
  stream : Option ResponseStream := none
  events : List (HeldStream σ) := []
  app : σ
  metrics : Metrics := {}
  elapsed : Nat := 0
  /-- What other tasks have reported. -/
  elsewhere : List LogEvent := []
  nesting : Nesting := {}

inductive Ending (α : Type) where
  | ok (a : α)
  | failed (e : DispatchError)
  | panicked (reason : String)

namespace Run

variable {σ α : Type}

def withContext (r : Run σ) (f : Context → Context) : Run σ := { r with context := f r.context }

/-- Lets the open response stream go. -/
def dropStream (r : Run σ) : Run σ :=
  match r.stream with
  | none => r
  | some s =>
    let (_, x) := s.drop r.context.exchange
    { r with stream := none, context := { r.context with exchange := x } }

/-- Something attempted on the request, which lets the open response stream go. -/
def onContext {ε : Type} (r : Run σ) (f : Context → Attempt Context ε α) : Except ε α × Run σ :=
  let r := r.dropStream
  let (result, context) := f r.context
  (result, { r with context })

def onStream (r : Run σ) (f : ResponseStream → Exchange → ResponseStream.On α) :
    Except IoError α × Run σ :=
  match r.stream with
  | none => (.error ResponseStream.closedError, r)
  | some s =>
    let (result, s, x) := f s r.context.exchange
    (result, { r with stream := some s, context := { r.context with exchange := x } })

def openStream (r : Run σ) : Except DispatchError Unit × Run σ :=
  let r := r.dropStream
  if r.context.exchange.headersSent then (.error (.exchange .headersAlreadySent), r)
  else
    (.ok (), { r with
      context := r.context.stamp
      stream := some { coder := r.context.coder, settings := r.context.settings.compression } })

def streamView (r : Run σ) : StreamView :=
  match r.stream with
  | none => ⟨none, true, false, 0⟩
  | some s => ⟨s.coding, s.isClosed, s.failed, s.written⟩

/-- Something done to the event stream of the given number, which writes to the exchange. The
callbacks that it runs change the state of the application. -/
def onEvents (r : Run σ) (n : Nat) (dflt : α)
    (f : EventStream (σ → σ) → α × EventStream (σ → σ)) : α × Run σ :=
  match r.events[n]? with
  | none => (dflt, r)
  | some h =>
    let before := { h.stream with
      emitter :=
        { h.stream.emitter with out := r.context.exchange.out, log := r.context.exchange.log } }
    let (a, after) := f before
    let app := (after.ran.drop before.ran.length).foldl (fun s callback => callback s) r.app
    (a, { r with
      context := r.context.withEmitter after.emitter
      events := r.events.set n { h with stream := after }
      app })

def callEvents (r : Run σ) (n : Nat) (c : EventStream.Call (σ → σ)) :
    Except StreamEnded Unit × Run σ :=
  r.onEvents n (.error .closed) (·.call c)

/-- The calls of another task on an event stream, which closes it in the end. -/
def callElsewhere (r : Run σ) (n : Nat) : List (NotedCall σ) → Run σ
  | [] => (r.callEvents n .close).2
  | c :: cs =>
    let (result, r) := r.callEvents n c.call
    callElsewhere { r with app := c.note result r.app } n cs

def dropEvents (r : Run σ) (n : Nat) : Run σ :=
  match r.events[n]? with
  | some { stream := _, held := true } =>
    let (_, r) := r.onEvents n () fun s => ((), s.drop)
    { r with events := r.events.modify n ({ · with held := false }) }
  | _ => r

/-- Waits until an event stream is closed, while another task makes calls. What that task reports is
kept apart. -/
def keepAlive (r : Run σ) (n : Nat) (others : List (NotedCall σ)) : Run σ :=
  let r := r.withContext (·.report (.eventStreamParked r.context.id))
  let log := r.context.exchange.log
  let r := r.callElsewhere n others
  let theirs := r.context.exchange.log.drop log.length
  let r := { r with elsewhere := r.elsewhere ++ theirs }
  (r.withContext (·.onExchange fun x => { x with log })).dropEvents n

def openEvents (r : Run σ) : Except DispatchError Nat × Run σ :=
  match r.onContext Context.openEvents with
  | (.error e, r) => (.error e, r)
  | (.ok stream, r) => (.ok r.events.length, { r with events := r.events ++ [{ stream }] })

def perform (r : Run σ) : (c : Call σ) → c.Answer × Run σ
  | .view => let r := r.dropStream; (r.context.view, r)
  | .bodyBytes => r.onContext Context.bodyBytes
  | .bodyJson => r.onContext Context.bodyJson
  | .setAttributes a =>
    ((), r.dropStream.withContext (·.onExchange fun x => { x with attributes := a }))
  | .setStatus s => r.onContext (·.setStatus s)
  | .setField n v => r.onContext (·.setField n v)
  | .openStream => r.openStream
  | .streamWrite b => r.onStream (·.write · b)
  | .streamWriteAll b => r.onStream (·.writeAll · b)
  | .streamFlush => r.onStream (·.flush ·)
  | .streamFinish => r.onStream (·.finish ·)
  | .streamDrop => ((), r.dropStream)
  | .streamView => (r.streamView, r)
  | .serveRange source total contentType => r.onContext (·.serveRange source total contentType)
  | .openEvents => r.openEvents
  | .events n c => r.callEvents n c
  | .eventsClosed n => ((r.events[n]?.map (·.stream.closed)).getD true, r)
  | .keepAlive n others => ((), r.keepAlive n others)
  | .dropEvents n => ((), r.dropEvents n)
  | .get => (r.app, r)
  | .modify f => ((), { r with app := f r.app })
  | .metrics => (r.metrics, r)
  | .modifyMetrics f => ((), { r with metrics := f r.metrics })
  | .elapsed => (r.elapsed, r)
  | .report e => ((), r.withContext (·.report e))

/-- Lets go what a program has left open: the response stream, and the sessions from number `first`
on, the last one first. -/
def settle (r : Run σ) (first : Nat) : Run σ :=
  let r := r.dropStream
  (List.range' first (r.events.length - first)).reverse.foldl dropEvents r

end Run

namespace Program

variable {σ α : Type}

/-- Runs a program; `route` runs the handler of the request's route. -/
def runWith (route : Run σ → Option (Ending Response) × Run σ) :
    Program σ α → Run σ → Ending α × Run σ
  | done a, r => (.ok a, r)
  | fail e, r => (.failed e, r)
  | panic m, r => (.panicked m, r)
  | call c next, r =>
    match r.perform c with
    | (answer, r) => runWith route (next answer) r
  | callRoute next, r =>
    match route r.dropStream with
    | (none, r) => runWith route (next none) r
    | (some (.ok a), r) => runWith route (next (some (.ok a))) r
    | (some (.failed e), r) => runWith route (next (some (.error e))) r
    | (some (.panicked m), r) => (.panicked m, r)

def runAndSettle (route : Run σ → Option (Ending Response) × Run σ) (p : Program σ α) (r : Run σ) :
    Ending α × Run σ :=
  match p.runWith route r with
  | (ending, after) => (ending, after.settle r.events.length)

/-- Runs the handler of the request's route, which may call itself at most `depth` times over. -/
def runRoute (handler : Option (Handler σ)) : Nat → Run σ → Option (Ending Response) × Run σ
  | 0, r => (handler.map fun _ => .panicked r.nesting.reason, r)
  | depth + 1, r =>
    match handler with
    | none => (none, r)
    | some h =>
      match h.runAndSettle (runRoute handler depth) r with
      | (ending, r) => (some ending, r)

/-- Runs a program for a request whose route is served by `handler`. -/
def run (handler : Option (Handler σ)) (p : Program σ α) (r : Run σ) : Ending α × Run σ :=
  p.runAndSettle (runRoute handler r.nesting.depth) r

end Program

end HttpDispatch
