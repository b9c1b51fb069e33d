import HttpDispatch.Coding.Coder
import HttpDispatch.Exchange.Basic

/-!
# Response streams

The body of a response, written piece by piece. The head is sent with the first piece that is not
empty, whose size decides on the coding. A failed write closes the stream for good. The answer to a
request for the head only has the fields of the whole answer, and its body is swallowed.

What an encoder has written so far is a function of all that it was given; the stream keeps that
history together with the number of bytes that have been passed on.
-/

namespace HttpDispatch

inductive Sink where
  | pending
  | plain
  /-- To an encoder that has been given `history`, and from there to the writer, which has been
  passed `passed` bytes. -/
  | coded (coding : Coding) (history : List Feed) (passed : Nat)
  /-- Nowhere: the request asks for the head only. -/
  | discard
  | closed
deriving DecidableEq, Repr

structure ResponseStream where
  coder : Coder
  settings : CompressionSettings
  sink : Sink := .pending
  /-- The coding that was chosen with the first piece. -/
  coding : Option Coding := none
  failed : Bool := false
  written : Nat := 0

namespace ResponseStream

abbrev On (α : Type) := Attempt (ResponseStream × Exchange) IoError α

def closedError : IoError := ⟨.brokenPipe, "response stream is closed"⟩

def isClosed (s : ResponseStream) : Bool := s.sink = .closed

/-- Everything that an encoder has written after the given history. -/
def encoded (s : ResponseStream) (coding : Coding) (history : List Feed) : Bytes :=
  s.coder.encode coding s.settings.level history

/-- Passes on what has not been passed on yet of what an encoder has written. -/
def deliver (s : ResponseStream) (coding : Coding) (history : List Feed) (passed : Nat)
    (x : Exchange) : Attempt Exchange IoError Unit :=
  x.writeAll ((s.encoded coding history).drop passed)

/-- Lets go of the sink. An encoder that is let go still passes on what finishing it writes, as far
as it can. -/
def abandon (s : ResponseStream) (x : Exchange) : Exchange :=
  match s.sink with
  | .coded coding history passed => (s.deliver coding (history ++ [.finish]) passed x).2
  | _ => x

/-- Closes the stream after a failure, which is reported the first time. -/
def fail (s : ResponseStream) (x : Exchange) (e : IoError) : ResponseStream × Exchange :=
  let x := if s.failed then x else x.report (.streamFailed e s.written)
  ({ s with failed := true, sink := .closed }, s.abandon x)

def settle {α : Type} (s : ResponseStream) (r : Attempt Exchange IoError α) : On α :=
  match r with
  | (.ok a, x) => (.ok a, s, x)
  | (.error e, x) => (.error e, s.fail x e)

def openSink (x : Exchange) (coding : Option Coding) : Sink :=
  if x.isHead then .discard
  else match coding with
    | none => .plain
    | some c => .coded c [] 0

/-- Decides on the coding, given the size of the first piece, and sends the head. -/
def start (s : ResponseStream) (x : Exchange) (size : Nat) : On Unit :=
  let coding := s.settings.choose x.request.headers x.pending size
  let x := x.withPending (·.withCoding s.settings coding)
  let s := { s with coding }
  match x.sendHeaders with
  | (.error e, x) => (.error (.other e.message), { s with sink := .closed, failed := true }, x)
  | (.ok (), x) => (.ok (), { s with sink := openSink x coding }, x)

/-- Writes a piece to the sink, once the head has been sent. An encoder takes a piece after what it
has written before has been passed on.

That it takes the piece as a whole, and passes on in the next call what it has written for it, is
fixed here and not left to `Coder`. An encoder with a buffer of its own may take less at a time, and
pass on in between: `write` then answers with a smaller number, and a writer that refuses shows
within a piece rather than with the next one. What arrives of a body that is written to its end is
the same. -/
def push (s : ResponseStream) (x : Exchange) (b : Bytes) : On Nat :=
  match s.sink with
  | .pending | .closed => (.error closedError, s, x)
  | .discard => (.ok b.length, { s with written := s.written + b.length }, x)
  | .plain =>
    match x.write b with
    | (.ok n, x) => (.ok n, { s with written := s.written + n }, x)
    | (.error e, x) => (.error e, s.fail x e)
  | .coded coding history passed =>
    match s.deliver coding history passed x with
    | (.ok (), x) =>
      (.ok b.length,
        { s with
          written := s.written + b.length,
          sink := .coded coding (history ++ [.data b]) (s.encoded coding history).length }, x)
    | (.error e, y) =>
      let taken := y.out.written.length - x.out.written.length
      (.error e, { s with sink := .coded coding history (passed + taken) }.fail y e)

def write (s : ResponseStream) (x : Exchange) (b : Bytes) : On Nat :=
  if b = [] then (.ok 0, s, x)
  else if s.sink = .pending then
    (s.start x b.length).andThen fun _ (s, x) => s.push x b
  else s.push x b

def writeAll (s : ResponseStream) (x : Exchange) (b : Bytes) : On Unit :=
  if b = [] then (.ok (), s, x)
  else match s.write x b with
    | (.error e, t) => (.error e, t)
    | (.ok 0, t) => (.ok (), t)
    | (.ok (n + 1), s, x) => writeAll s x (b.drop (n + 1))
termination_by b.length
decreasing_by
  have : 0 < b.length := List.length_pos_iff.2 (by assumption)
  simp only [List.length_drop]
  omega

def flush (s : ResponseStream) (x : Exchange) : On Unit :=
  match s.sink with
  | .pending | .discard => (.ok (), s, x)
  | .closed => (.error closedError, s, x)
  | .plain => s.settle x.flush
  | .coded coding history passed =>
    let more := history ++ [.flush]
    match s.deliver coding more passed x with
    | (.ok (), x) =>
      { s with sink := .coded coding more (s.encoded coding more).length }.settle x.flush
    | (.error e, y) =>
      let taken := y.out.written.length - x.out.written.length
      (.error e, { s with sink := .coded coding more (passed + taken) }.fail y e)

/-- What the sink does when the stream ends. If nothing was written, the head is sent, and the body
is empty. -/
def endSink (s : ResponseStream) (x : Exchange) : Attempt Exchange IoError Unit :=
  match s.sink with
  | .pending =>
    if x.headersSent then (.ok (), x)
    else ((x.withPending (·.insert .contentLength (.ofNat 0))).sendHeaders).mapError fun e =>
      .other e.message
  | .discard => (.ok (), x)
  | .plain => x.flush
  | .coded coding history passed =>
    (s.deliver coding (history ++ [.finish]) passed x).andThen fun _ x => x.flush
  | .closed => (if s.failed then .error closedError else .ok (), x)

def finish (s : ResponseStream) (x : Exchange) : On Unit :=
  { s with sink := .closed }.settle (s.endSink x)

def drop (s : ResponseStream) (x : Exchange) : ResponseStream × Exchange :=
  if s.isClosed then (s, x)
  else match s.finish x with
    | (.ok (), t) => t
    | (.error e, s, x) => (s, x.report (.streamDropped e))

end ResponseStream

end HttpDispatch
