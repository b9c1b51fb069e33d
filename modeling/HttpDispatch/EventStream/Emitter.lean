import HttpDispatch.Connection.Writer
import HttpDispatch.EventStream.Event
import HttpDispatch.Log

/-!
# Emitters

An emitter sends blocks of events to a writer and has each of them delivered at once. The first
failure shuts it, and nothing is sent after that. An emitter may also be muted: then it takes
everything and sends nothing.
-/

namespace HttpDispatch

inductive StreamEnded where
  | closed
deriving DecidableEq, Repr

def StreamEnded.message : StreamEnded → String
  | closed => "SSE stream is closed"

inductive EmitterState where
  /-- It sends them. -/
  | sending
  /-- It drops them. -/
  | muted
  /-- It refuses them. -/
  | shut
deriving DecidableEq, Repr

structure Emitter where
  state : EmitterState := .sending
  out : Writer
  log : List LogEvent := []
deriving DecidableEq, Repr

namespace Emitter

/-- What one call asks an emitter to send. -/
inductive Block where
  | event (e : Event)
  | comment (s : String)
  | retry (millis : Nat)
deriving DecidableEq, Repr

def Block.chars : Block → List Char
  | event e => e.chars
  | comment s => Event.commentChars s
  | retry millis => Event.retryChars millis

def Block.bytes (b : Block) : Bytes := Text.encode (String.ofList b.chars)

def isShut (e : Emitter) : Bool := e.state = .shut

/-- A failed write or flush shuts the emitter. -/
def fail (e : Emitter) (out : Writer) (cause : IoError) : Emitter :=
  { state := .shut, out, log := e.log ++ [.eventWriteFailed cause] }

def emit (e : Emitter) (b : Block) : Except StreamEnded Unit × Emitter :=
  match e.state with
  | .shut => (.error .closed, e)
  | .muted => (.ok (), e)
  | .sending =>
    match e.out.writeAll b.bytes with
    | (.error cause, out) => (.error .closed, e.fail out cause)
    | (.ok (), out) =>
      match out.flush with
      | (.error cause, out) => (.error .closed, e.fail out cause)
      | (.ok (), out) => (.ok (), { e with out })

def close (e : Emitter) : Bool × Emitter :=
  match e.state with
  | .shut => (false, e)
  | .muted => (true, { e with state := .shut })
  | .sending =>
    match e.out.flush with
    | (.error cause, out) =>
      (true, { state := .shut, out, log := e.log ++ [.eventFlushFailed cause] })
    | (.ok (), out) => (true, { e with state := .shut, out })

end Emitter

end HttpDispatch
