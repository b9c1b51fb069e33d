import HttpDispatch.Attempt
import HttpDispatch.Connection.Writer
import HttpDispatch.Exchange.Request
import HttpDispatch.Log

/-!
# Exchanges

One request and its response. Status and header fields of the response are pending until they are
sent, once; the body follows on the writer. An exchange is kept in memory, where what was sent can
be looked at, or it is carried by a connection, on which the response head is written in front of
the body and tells the client that the connection ends with it.

An exchange also carries the report of what has happened on it.
-/

namespace HttpDispatch

inductive Transport where
  /-- Nothing: the head is set aside, and the writer holds the body alone. -/
  | memory
  /-- A connection: the writer holds the head and then the body. -/
  | wire
deriving DecidableEq, Repr

structure ResponseHead where
  status : Status
  headers : Headers
deriving DecidableEq, Repr

namespace ResponseHead

def lineEnd : Bytes := [0x0D, 0x0A]

def fieldLine (field : FieldName × FieldValue) : Bytes :=
  Text.encode (field.1.text ++ ": ") ++ field.2.bytes ++ lineEnd

def statusLine (s : Status) : Bytes :=
  Text.encode ("HTTP/1.1 " ++ toString s.code ++ " " ++ s.reason) ++ lineEnd

/-- The head as it is written: the status line, a line for each field, and an empty line. -/
def bytes (h : ResponseHead) : Bytes :=
  statusLine h.status ++ h.headers.entries.flatMap fieldLine ++ lineEnd

end ResponseHead

structure Attributes where
  text : Option String := none
  number : Option Int := none
deriving DecidableEq, Repr

structure Exchange where
  transport : Transport
  request : Request
  body : RequestBody
  status : Status := .ok
  pending : Headers := .empty
  sent : Option ResponseHead := none
  /-- How often sending the head has succeeded. -/
  sends : Nat := 0
  out : Writer := {}
  attributes : Attributes := {}
  /-- Whether someone else holds a handle on the writer. -/
  detached : Bool := false
  closed : Bool := false
  log : List LogEvent := []

namespace Exchange

def headersSent (x : Exchange) : Bool := x.sent.isSome

/-- The value of a field of the head that was sent, if it is text. -/
def sentField? (x : Exchange) (name : String) : Option String :=
  match x.sent, FieldName.ofString? name with
  | some head, some n => (head.headers.get? n).bind FieldValue.text?
  | _, _ => none

def report (x : Exchange) (e : LogEvent) : Exchange := { x with log := x.log ++ [e] }

def reportAll (x : Exchange) (es : List LogEvent) : Exchange := { x with log := x.log ++ es }

def isHead (x : Exchange) : Bool := x.request.method = .head

def setStatus (x : Exchange) (s : Status) : Attempt Exchange ExchangeError Unit :=
  if x.headersSent then (.error .headersAlreadySent, x) else (.ok (), { x with status := s })

/-- Sends the status and the pending header fields. This succeeds at most once; on a connection the
head counts as sent even if the peer takes only part of it. -/
def sendHeaders (x : Exchange) : Attempt Exchange ExchangeError Unit :=
  if x.closed then (.error .closed, x)
  else if x.headersSent then (.error .headersAlreadySent, x)
  else match x.transport with
    | .memory => (.ok (), { x with sent := some ⟨x.status, x.pending⟩, sends := x.sends + 1 })
    | .wire =>
      let head : ResponseHead := ⟨x.status, x.pending.insert .connection .close⟩
      let x := { x with pending := head.headers, sent := some head }
      match x.out.writeAll head.bytes with
      | (.ok (), out) => (.ok (), { x with out, sends := x.sends + 1 })
      | (.error e, out) => (.error (.io e), { x with out })

/-- Why the body cannot be written, if it cannot: the exchange has to be open, and its head sent. -/
def output (x : Exchange) : Except ExchangeError Unit :=
  if x.closed then .error .closed
  else if x.headersSent then .ok ()
  else .error .headersNotSent

/-- Hands out a handle on the writer that goes on working when the exchange is closed. -/
def detach (x : Exchange) : Attempt Exchange ExchangeError Unit :=
  match x.output with
  | .error e => (.error e, x)
  | .ok () => (.ok (), { x with detached := true })

def onWriter {α : Type} (x : Exchange) (f : Writer → Attempt Writer IoError α) :
    Attempt Exchange IoError α :=
  Attempt.inside (fun out => { x with out }) (f x.out)

def write (x : Exchange) (b : Bytes) : Attempt Exchange IoError Nat := x.onWriter (·.write b)

def writeAll (x : Exchange) (b : Bytes) : Attempt Exchange IoError Unit := x.onWriter (·.writeAll b)

def flush (x : Exchange) : Attempt Exchange IoError Unit := x.onWriter (·.flush)

/-- Releases the exchange. On a connection, the first time asks for everything to be delivered. -/
def close (x : Exchange) : Attempt Exchange IoError Unit :=
  match x.transport with
  | .memory => (.ok (), { x with closed := true })
  | .wire => if x.closed then (.ok (), x) else ({ x with closed := true } : Exchange).flush

def readBody (x : Exchange) : Attempt Exchange IoError Bytes :=
  Attempt.inside (fun body => { x with body }) x.body.readAll

def withPending (x : Exchange) (f : Headers → Headers) : Exchange :=
  { x with pending := f x.pending }

def inMemory (request : Request) (body : Bytes) (out : Writer) : Exchange :=
  { transport := .memory, request, body := .held body, out }

end Exchange

end HttpDispatch
