import HttpDispatch.Exchange.Basic

/-!
# Operations on an exchange

What can be asked of an exchange, one request at a time, as an inductive type with one function that
performs each. A history of an exchange is a list of operations, so that laws about every use of an
exchange are laws about lists.
-/

namespace HttpDispatch.Exchange

inductive Operation where
  | setStatus (s : Status)
  /-- Puts a pending field in place of those of its name. -/
  | insert (n : FieldName) (v : FieldValue)
  /-- Puts a pending field after those of its name. -/
  | append (n : FieldName) (v : FieldValue)
  | remove (n : FieldName)
  | sendHeaders
  | write (b : Bytes)
  | writeAll (b : Bytes)
  | flush
  | detach
  | handleWrite (b : Bytes)
  | handleWriteAll (b : Bytes)
  | handleFlush
  | readBody (n : Nat)
  | readAll
  | setText (s : String)
  | getText
  | close
deriving DecidableEq, Repr

inductive Answer where
  | done
  | found (b : Bool)
  | count (n : Nat)
  | bytes (b : Bytes)
  | text (s : Option String)
  | refused (e : ExchangeError)
  | failed (e : IoError)
  | noHandle
deriving DecidableEq, Repr

def Answer.ofSent (r : Attempt Exchange ExchangeError Unit) : Answer × Exchange :=
  match r with
  | (.ok (), x) => (.done, x)
  | (.error e, x) => (.refused e, x)

def Answer.ofIo {α : Type} (answer : α → Answer) (r : Attempt Exchange IoError α) :
    Answer × Exchange :=
  match r with
  | (.ok a, x) => (answer a, x)
  | (.error e, x) => (.failed e, x)

def throughOutput (x : Exchange) (f : Exchange → Answer × Exchange) : Answer × Exchange :=
  match x.output with
  | .error e => (.refused e, x)
  | .ok () => f x

def throughHandle (x : Exchange) (f : Exchange → Answer × Exchange) : Answer × Exchange :=
  if x.detached then f x else (.noHandle, x)

def perform (x : Exchange) : Operation → Answer × Exchange
  | .setStatus s => Answer.ofSent (x.setStatus s)
  | .insert n v => (.found (x.pending.contains n), x.withPending (·.insert n v))
  | .append n v => (.found (x.pending.contains n), x.withPending (·.append n v))
  | .remove n => (.found (x.pending.contains n), x.withPending (·.erase n))
  | .sendHeaders => Answer.ofSent x.sendHeaders
  | .write b => x.throughOutput fun x => Answer.ofIo .count (x.write b)
  | .writeAll b => x.throughOutput fun x => Answer.ofIo (fun _ => .count 0) (x.writeAll b)
  | .flush => x.throughOutput fun x => Answer.ofIo (fun _ => .count 0) x.flush
  | .detach => Answer.ofSent x.detach
  | .handleWrite b => x.throughHandle fun x => Answer.ofIo .count (x.write b)
  | .handleWriteAll b => x.throughHandle fun x => Answer.ofIo (fun _ => .count 0) (x.writeAll b)
  | .handleFlush => x.throughHandle fun x => Answer.ofIo (fun _ => .count 0) x.flush
  | .readBody n => Answer.ofIo .bytes (Attempt.inside (fun body => { x with body }) (x.body.read n))
  | .readAll => Answer.ofIo .bytes x.readBody
  | .setText s =>
    (.text x.attributes.text, { x with attributes := { x.attributes with text := some s } })
  | .getText => (.text x.attributes.text, x)
  | .close => Answer.ofIo (fun _ => .done) x.close

def performAll (x : Exchange) : List Operation → List Answer × Exchange
  | [] => ([], x)
  | op :: ops =>
    match x.perform op with
    | (a, x) =>
      match performAll x ops with
      | (as, x) => (a :: as, x)

end HttpDispatch.Exchange
