import HttpDispatch.EventStream.Emitter
import HttpDispatch.Http.Address

/-!
# Event streams

An event stream is shared by the session that opened it and any number of clients, which may act at
the same time. What they share is an emitter, a flag that says whether the stream has been closed,
the callbacks to be run when it is, and a signal for a session that waits for the end.

Each operation is a task: a tree of atomic acts on the shared state, where the answer of an act
decides how the task goes on. Run from its first act to its last, a task is an ordinary operation;
run side by side with others, it shows what may happen when the acts of several are mixed.
-/

namespace HttpDispatch

/-- What the session and the clients of an event stream share. Callbacks are of type `κ`. -/
structure EventStream (κ : Type) where
  id : RequestId
  remote : Option SocketAddress
  emitter : Emitter
  closed : Bool := false
  callbacks : List κ := []
  ran : List κ := []
  /-- Whether the signal for the session is still to be sent. -/
  armed : Bool := true
  /-- How often the signal has been sent. -/
  signals : Nat := 0
  /-- Whether the session is still there to receive it. -/
  waiting : Bool := true

namespace EventStream

variable {κ α β : Type}

inductive Act (κ : Type) where
  /-- Looks at the flag. -/
  | look
  /-- Sets the flag, and tells what it was. -/
  | mark
  | emit (b : Emitter.Block)
  | shut
  /-- Adds a callback, unless the flag is set, and tells whether it was added. -/
  | register (callback : κ)
  | take
  | run (callback : κ)
  /-- Sends the signal, if that has not been done. -/
  | release
  | report (e : LogEvent)
  /-- Lets the session go: nobody receives the signal any more. -/
  | leave

def Act.Answer : Act κ → Type
  | look | mark | register _ => Bool
  | emit _ => Except StreamEnded Unit
  | take => List κ
  | shut | run _ | release | report _ | leave => Unit

def reported (s : EventStream κ) (e : LogEvent) : EventStream κ :=
  { s with emitter := { s.emitter with log := s.emitter.log ++ [e] } }

def perform (s : EventStream κ) : (a : Act κ) → a.Answer × EventStream κ
  | .look => (s.closed, s)
  | .mark => (s.closed, { s with closed := true })
  | .emit b =>
    match s.emitter.emit b with
    | (r, emitter) => (r, { s with emitter })
  | .shut => ((), { s with emitter := s.emitter.close.2 })
  | .register c =>
    if s.closed then (false, s) else (true, { s with callbacks := s.callbacks ++ [c] })
  | .take => (s.callbacks, { s with callbacks := [] })
  | .run c => ((), { s with ran := s.ran ++ [c] })
  | .release =>
    if !s.armed then ((), s)
    else
      let s : EventStream κ := { s with armed := false, signals := s.signals + 1 }
      ((), if s.waiting then s else s.reported (.nobodyWaiting s.id))
  | .report e => ((), s.reported e)
  | .leave => ((), { s with waiting := false })

/-- An operation, as the acts it is made of. -/
inductive Task (κ α : Type) where
  | done (result : α)
  | act (a : Act κ) (next : a.Answer → Task κ α)

namespace Task

def andThen : Task κ α → (α → Task κ β) → Task κ β
  | done a, f => f a
  | act a next, f => act a fun answer => andThen (next answer) f

def run : Task κ α → EventStream κ → α × EventStream κ
  | done a, s => (a, s)
  | act a next, s =>
    match s.perform a with
    | (answer, s) => run (next answer) s

def runAll : List κ → Task κ Unit
  | [] => done ()
  | c :: cs => act (.run c) fun _ => runAll cs

/-- Closes the stream: shuts the emitter, runs the callbacks and sends the signal. Only the first of
several does any of it. -/
def close (id : RequestId) : Task κ Unit :=
  act .mark fun was =>
    match was with
    | true => done ()
    | false =>
      act .shut fun _ =>
        act .take fun callbacks =>
          (runAll callbacks).andThen fun _ =>
            act .release fun _ => act (.report (.eventStreamClosed id)) fun _ => done ()

/-- Sends a block, unless the stream has been closed. A failure closes it. -/
def send (id : RequestId) (b : Emitter.Block) : Task κ (Except StreamEnded Unit) :=
  act .look fun closed =>
    match closed with
    | true => done (.error .closed)
    | false =>
      act (.emit b) fun result =>
        match result with
        | .ok () => done (.ok ())
        | .error e => (close id).andThen fun _ => done (.error e)

/-- Has a callback run when the stream is closed: at once if it has been. -/
def onClose (callback : κ) : Task κ Unit :=
  act (.register callback) fun added =>
    match added with
    | true => done ()
    | false => act (.run callback) fun _ => done ()

def drop (id : RequestId) : Task κ Unit :=
  (close id).andThen fun _ => act .leave fun _ => done ()

end Task

inductive Call (κ : Type) where
  | send (e : Event)
  | comment (s : String)
  | onClose (callback : κ)
  | close

def Call.task (id : RequestId) : Call κ → Task κ (Except StreamEnded Unit)
  | send e => .send id (.event e)
  | comment s => .send id (.comment s)
  | onClose callback => (Task.onClose callback).andThen fun _ => .done (.ok ())
  | close => (Task.close id).andThen fun _ => .done (.ok ())

def call (s : EventStream κ) (c : Call κ) : Except StreamEnded Unit × EventStream κ :=
  (c.task s.id).run s

def drop (s : EventStream κ) : EventStream κ := ((Task.drop s.id).run s).2

def ofWriter (out : Writer) (id : RequestId) (remote : Option SocketAddress) : EventStream κ :=
  { id, remote, emitter := { out } }

end EventStream

end HttpDispatch
