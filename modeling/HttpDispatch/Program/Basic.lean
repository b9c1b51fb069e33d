import HttpDispatch.Connection.Source
import HttpDispatch.Context.Basic
import HttpDispatch.EventStream.Session
import HttpDispatch.Json.Shape
import HttpDispatch.Metrics
import HttpDispatch.Response

/-!
# Programs

What filters, handlers and error handlers do is a program: a tree of calls on the state of the
request, where the answer of a call decides how the program goes on. A program ends with a result,
with an error, or by breaking down. Programs know nothing about how calls are carried out, so that a
law which holds for every program holds for whatever an application may do.

Programs share a state of the application's own, of type `σ`. A callback of an event stream is a
change of that state.
-/

namespace HttpDispatch

/-- A call on an event stream that notes how it ended in the state of the application. -/
structure NotedCall (σ : Type) where
  call : EventStream.Call (σ → σ)
  note : Except StreamEnded Unit → σ → σ

structure StreamView where
  coding : Option Coding
  closed : Bool
  failed : Bool
  written : Nat
deriving DecidableEq, Repr

inductive Call (σ : Type) where
  | view
  | bodyBytes
  | bodyJson
  | setAttributes (a : Attributes)
  | setStatus (s : Status)
  | setField (n : FieldName) (v : FieldValue)
  /-- Opens a response stream in place of the one that is open. -/
  | openStream
  | streamWrite (b : Bytes)
  | streamWriteAll (b : Bytes)
  | streamFlush
  | streamFinish
  | streamDrop
  | streamView
  | serveRange (source : Source) (total : Nat) (contentType : String)
  | openEvents
  | events (stream : Nat) (call : EventStream.Call (σ → σ))
  | eventsClosed (stream : Nat)
  /-- Waits until the event stream is closed. Meanwhile another task makes the given calls, and
  closes it in the end. -/
  | keepAlive (stream : Nat) (others : List (NotedCall σ))
  | dropEvents (stream : Nat)
  | get
  | modify (f : σ → σ)
  | metrics
  | modifyMetrics (f : Metrics → Metrics)
  | elapsed
  | report (e : LogEvent)

def Call.Answer {σ : Type} : Call σ → Type
  | view => View
  | bodyBytes => Except DispatchError Bytes
  | bodyJson => Except DispatchError Json
  | setStatus _ | setField _ _ | openStream => Except DispatchError Unit
  | streamWrite _ => Except IoError Nat
  | streamWriteAll _ | streamFlush | streamFinish => Except IoError Unit
  | streamView => StreamView
  | serveRange _ _ _ => Except DispatchError Response
  | openEvents => Except DispatchError Nat
  | events _ _ => Except StreamEnded Unit
  | eventsClosed _ => Bool
  | get => σ
  | metrics => Metrics
  | elapsed => Nat
  | setAttributes _ | streamDrop | keepAlive _ _ | dropEvents _ | modify _ | modifyMetrics _
  | report _ => Unit

/-- A behaviour with a result of type `α`. -/
inductive Program (σ α : Type) where
  | done (a : α)
  | fail (e : DispatchError)
  | panic (reason : String)
  | call (c : Call σ) (next : c.Answer → Program σ α)
  /-- Calls the handler of the request's route, if there is a route. -/
  | callRoute (next : Option (Except DispatchError Response) → Program σ α)

namespace Program

variable {σ α β : Type}

def bind : Program σ α → (α → Program σ β) → Program σ β
  | done a, f => f a
  | fail e, _ => fail e
  | panic m, _ => panic m
  | call c next, f => call c fun answer => bind (next answer) f
  | callRoute next, f => callRoute fun answer => bind (next answer) f

instance : Monad (Program σ) where
  pure := done
  bind := bind

def ask (c : Call σ) : Program σ c.Answer := call c done

def ofExcept : Except DispatchError α → Program σ α
  | .ok a => done a
  | .error e => fail e

def ofIo : Except IoError α → Program σ α
  | .ok a => done a
  | .error e => fail (.io e)

def attempt : Program σ α → Program σ (Except DispatchError α)
  | done a => done (.ok a)
  | fail e => done (.error e)
  | panic m => panic m
  | call c next => call c fun answer => attempt (next answer)
  | callRoute next => callRoute fun answer => attempt (next answer)

def view : Program σ View := ask .view

def bodyBytes : Program σ Bytes := do ofExcept (← ask .bodyBytes)

def bodyText : Program σ String := do ofExcept (Context.textOf (← bodyBytes))

def bodyJson : Program σ Json := do ofExcept (← ask .bodyJson)

def bodyAs (shape : Json.Shape α) : Program σ α := do
  ofExcept ((shape (← bodyJson)).mapError Json.ShapeError.toDispatchError)

/-- Leaves something for the filters and the handler that come after. -/
def setAttributes (a : Attributes) : Program σ Unit := ask (.setAttributes a)

def setStatus (s : Status) : Program σ Unit := do ofExcept (← ask (.setStatus s))

def setField (n : FieldName) (v : FieldValue) : Program σ Unit := do
  ofExcept (← ask (.setField n v))

/-- Opens a response stream in place of the one that is open. -/
def openStream : Program σ Unit := do ofExcept (← ask .openStream)

/-- Writes to the response stream as much as is accepted at once. -/
def streamWrite (b : Bytes) : Program σ (Except IoError Nat) := ask (.streamWrite b)

def streamWriteAll (b : Bytes) : Program σ (Except IoError Unit) := ask (.streamWriteAll b)

def streamFlush : Program σ (Except IoError Unit) := ask .streamFlush

def streamFinish : Program σ (Except IoError Unit) := ask .streamFinish

def streamDrop : Program σ Unit := ask .streamDrop

def streamView : Program σ StreamView := ask .streamView

def serveRange (source : Source) (total : Nat) (contentType : String) : Program σ Response := do
  ofExcept (← ask (.serveRange source total contentType))

def openEvents : Program σ Nat := do ofExcept (← ask .openEvents)

def onEvents (stream : Nat) (c : EventStream.Call (σ → σ)) : Program σ (Except StreamEnded Unit) :=
  ask (.events stream c)

def eventsClosed (stream : Nat) : Program σ Bool := ask (.eventsClosed stream)

/-- Waits until the event stream of the given number is closed by another task. -/
def keepAlive (stream : Nat) (others : List (NotedCall σ)) : Program σ Unit :=
  ask (.keepAlive stream others)

def dropEvents (stream : Nat) : Program σ Unit := ask (.dropEvents stream)

def get : Program σ σ := ask .get

def modify (f : σ → σ) : Program σ Unit := ask (.modify f)

def metrics : Program σ Metrics := ask .metrics

def modifyMetrics (f : Metrics → Metrics) : Program σ Unit := ask (.modifyMetrics f)

def elapsed : Program σ Nat := ask .elapsed

def report (e : LogEvent) : Program σ Unit := ask (.report e)

/-- What the handler of the request's route returns, if there is a route. -/
def route : Program σ (Option Response) :=
  callRoute fun
    | none => done none
    | some (.ok r) => done (some r)
    | some (.error e) => fail e

end Program

/-- An event stream that has ended is a closed exchange. -/
def StreamEnded.toDispatchError : StreamEnded → DispatchError
  | closed => .exchange .closed

inductive Verdict where
  | proceed
  | halt (r : Response)

abbrev Handler (σ : Type) := Program σ Response

abbrev BeforeFilter (σ : Type) := Program σ Verdict

abbrev AfterFilter (σ : Type) := Response → Program σ Response

abbrev ErrorHandler (σ : Type) := DispatchError → Program σ Response

/-- What decides whether a route that asks for roles may be used. -/
abbrev AccessManager (σ : Type) := List String → Program σ Unit

end HttpDispatch
