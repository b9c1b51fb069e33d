import HttpDispatch.Program.Run

/-!
# Passages

A request passes through filters, a handler and error handlers, one callback after the other. The
passage keeps a journal of the callbacks that were run and of how each of them ended. There is one
way to run a callback, `Passage.invoke`, and it makes the entry: what the journal does not show has
not happened.
-/

namespace HttpDispatch

inductive Callback (σ : Type) where
  | before (filter : BeforeFilter σ)
  | access (roles : List String)
  | handler (handler : Handler σ)
  | after (filter : AfterFilter σ)
  /-- The handler of a category, and the error that it was given. -/
  | errorHandler (category : Category) (e : DispatchError)

inductive Course where
  | continued
  | halted
  | failed (e : DispatchError)
deriving DecidableEq, Repr

structure Step (σ : Type) where
  callback : Callback σ
  course : Course
  /-- Whether the head had been sent when the callback had ended. -/
  headersSent : Bool

def Verdict.course : Verdict → Course
  | proceed => .continued
  | halt _ => .halted

/-- A request on its way, with the journal of its callbacks. -/
structure Passage (σ : Type) where
  run : Run σ
  handler : Option (Handler σ) := none
  journal : List (Step σ) := []
  failure : Option Category := none

namespace Passage

variable {σ α : Type}

def onContext (p : Passage σ) (f : Context → Context) : Passage σ :=
  { p with run := p.run.withContext f }

def report (p : Passage σ) (e : LogEvent) : Passage σ := p.onContext (·.report e)

def enter (p : Passage σ) (phase : Phase) : Passage σ := p.onContext (·.enter phase)

def truncate (p : Passage σ) : Passage σ := p.onContext Context.truncate

def fail (p : Passage σ) (e : DispatchError) : Passage σ := { p with failure := some e.category }

def headersSent (p : Passage σ) : Bool := p.run.context.exchange.headersSent

def id (p : Passage σ) : RequestId := p.run.context.id

def acceptsJson (p : Passage σ) : Bool := p.run.context.exchange.request.headers.acceptsJson

def enterStep (p : Passage σ) (c : Callback σ) (course : Course) : Passage σ :=
  { p with journal := p.journal ++ [⟨c, course, p.headersSent⟩] }

/-- Runs a callback. One that breaks down is reported, and fails. -/
def invoke (p : Passage σ) (c : Callback σ) (course : α → Course) (program : Program σ α) :
    Except DispatchError α × Passage σ :=
  match program.run p.handler p.run with
  | (.ok a, run) => (.ok a, { p with run }.enterStep c (course a))
  | (.failed e, run) => (.error e, { p with run }.enterStep c (.failed e))
  | (.panicked reason, run) =>
    (.error (.panic reason),
      ({ p with run }.report (.panicked p.id p.run.context.phase.name reason)).enterStep c
        (.failed (.panic reason)))

theorem journal_invoke (p : Passage σ) (c : Callback σ) (course : α → Course)
    (program : Program σ α) :
    ∃ step : Step σ, step.callback = c ∧
      (p.invoke c course program).2.journal = p.journal ++ [step] := by
  unfold invoke
  split <;> exact ⟨_, rfl, rfl⟩

end Passage

end HttpDispatch
