import HttpDispatch.Proofs.EventStream.Closing
import Mathlib.Logic.Function.Basic

/-!
# Operations on an event stream that go on at the same time

Operations of the session and of any number of clients are tasks on the same stream, and any of them
may be the next that takes a step (`EventStream.Mixture`). The flag is not protected by the lock on
the callbacks: registering a callback and taking the callbacks both begin with the lock, and what
registering does then goes by the flag as it was found at that moment, while the flag may be set
before the step is completed (`EventStream.performFound`). Between two steps the peer may change in
any way.

A task that is not disturbed does what it does when it is run
(`EventStream.Mixture.exists_after_eq_run`).
-/

namespace HttpDispatch.EventStream

variable {ι κ : Type}

def Act.locks : Act κ → Bool
  | .register _ | .take => true
  | _ => false

/-- Adds a callback, unless the stream was found closed. -/
def enlist (s : EventStream κ) (found : Bool) (callback : κ) : Bool × EventStream κ :=
  if found then (false, s) else (true, { s with callbacks := s.callbacks ++ [callback] })

/-- What an act does if the flag was found as given when the callbacks were locked for it. -/
def performFound (s : EventStream κ) (found : Bool) : (a : Act κ) → a.Answer × EventStream κ
  | .register c => s.enlist found c
  | a => s.perform a

theorem performFound_closed (s : EventStream κ) (a : Act κ) :
    s.performFound s.closed a = s.perform a := by
  cases a <;> rfl

/-- Operations on one event stream that go on at the same time. -/
structure Mixture (ι κ : Type) where
  stream : EventStream κ
  /-- What each of them has still to do. -/
  task : ι → Task κ (Except StreamEnded Unit)
  /-- Who has locked the callbacks, and the flag as it was found then. -/
  holder : Option (ι × Bool) := none

/-- What happens next: an operation takes a step, if it can, or the peer changes. -/
inductive Pick (ι : Type) where
  | step (i : ι)
  | turn (limit : Option Nat) (flushFailure : Option IoError)
deriving DecidableEq, Repr

namespace Mixture

def start (s : EventStream κ) (ops : ι → Op κ) : Mixture ι κ where
  stream := s
  task i := (ops i).task s.id

variable [DecidableEq ι]

def complete (m : Mixture ι κ) (i : ι) (found : Bool) (a : Act κ)
    (next : a.Answer → Task κ (Except StreamEnded Unit)) : Mixture ι κ where
  stream := (m.stream.performFound found a).2
  task := Function.update m.task i (next (m.stream.performFound found a).1)
  holder := if a.locks then none else m.holder

/-- A step of an operation, and the act that it completes. Who needs the lock gets it in a step of
its own, and waits while somebody else has it. -/
def step (m : Mixture ι κ) (i : ι) : Option (Act κ) × Mixture ι κ :=
  match m.task i with
  | .done _ => (none, m)
  | .act a next =>
    if a.locks then
      match m.holder with
      | none => (none, { m with holder := some (i, m.stream.closed) })
      | some (j, found) => if j = i then (some a, m.complete i found a next) else (none, m)
    else (some a, m.complete i m.stream.closed a next)

def move (m : Mixture ι κ) : Pick ι → Mixture ι κ
  | .step i => (m.step i).2
  | .turn limit flushFailure => { m with stream := m.stream.turn limit flushFailure }

def completes (m : Mixture ι κ) : Pick ι → List (ι × Act κ)
  | .step i => ((m.step i).1.map (i, ·)).toList
  | .turn _ _ => []

def after (m : Mixture ι κ) : List (Pick ι) → Mixture ι κ
  | [] => m
  | p :: ps => (m.move p).after ps

def trace (m : Mixture ι κ) : List (Pick ι) → List (ι × Act κ)
  | [] => []
  | p :: ps => m.completes p ++ (m.move p).trace ps

theorem after_append (m : Mixture ι κ) (ps qs : List (Pick ι)) :
    m.after (ps ++ qs) = (m.after ps).after qs := by
  induction ps generalizing m with
  | nil => rfl
  | cons p ps ih => exact ih _

/-- What a step does: nothing, or it gets the lock, or it completes an act. -/
theorem step_cases (m : Mixture ι κ) (i : ι) :
    m.step i = (none, m) ∨
    (∃ a next, m.task i = .act a next ∧ a.locks = true ∧ m.holder = none ∧
      m.step i = (none, { m with holder := some (i, m.stream.closed) })) ∨
    (∃ a next found, m.task i = .act a next ∧ (a.locks = true → m.holder = some (i, found)) ∧
      m.step i = (some a, m.complete i found a next)) := by
  unfold step
  cases htask : m.task i with
  | done r => exact .inl rfl
  | act a next =>
      dsimp only
      cases ha : a.locks with
      | false => exact .inr (.inr ⟨a, next, _, rfl, by simp [ha], rfl⟩)
      | true =>
          cases hholder : m.holder with
          | none => exact .inr (.inl ⟨a, next, rfl, ha, rfl, rfl⟩)
          | some h =>
              obtain ⟨j, found⟩ := h
              by_cases hj : j = i
              · subst hj
                refine .inr (.inr ⟨a, next, found, rfl, fun _ => rfl, ?_⟩)
                simp
              · refine .inl ?_
                simp [hj]

/-- Two steps complete any act of a task that is not disturbed, if the callbacks are not locked. -/
theorem exists_after_eq_complete {m : Mixture ι κ} {i : ι} {a : Act κ}
    {next : a.Answer → Task κ (Except StreamEnded Unit)} (ht : m.task i = .act a next)
    (hh : m.holder = none) : ∃ ps, m.after ps = m.complete i m.stream.closed a next := by
  cases ha : a.locks with
  | false =>
      refine ⟨[.step i], ?_⟩
      simp [after, move, step, ht, ha]
  | true =>
      refine ⟨[.step i, .step i], ?_⟩
      simp [after, move, step, ht, ha, hh, complete]

/-- A task that is not disturbed does what it does when it is run. -/
theorem exists_after_eq_run {m : Mixture ι κ} {i : ι} {t : Task κ (Except StreamEnded Unit)}
    (ht : m.task i = t) (hh : m.holder = none) :
    ∃ ps, m.after ps = { stream := (t.run m.stream).2,
                         task := Function.update m.task i (.done (t.run m.stream).1) } := by
  induction t generalizing m with
  | done r =>
      have htask : Function.update m.task i (.done r) = m.task := by
        rw [← ht, Function.update_eq_self]
      refine ⟨[], ?_⟩
      rw [Task.run, htask, ← hh]
      rfl
  | act a next ih =>
      obtain ⟨ps, hps⟩ := exists_after_eq_complete ht hh
      have hfree : (m.complete i m.stream.closed a next).holder = none := by
        rw [complete, hh, ite_self]
      have htask : (m.complete i m.stream.closed a next).task i =
          next (m.stream.performFound m.stream.closed a).1 := Function.update_self _ _ _
      obtain ⟨qs, hqs⟩ := ih _ htask hfree
      refine ⟨ps ++ qs, ?_⟩
      rw [after_append, hps, hqs]
      simp only [complete, performFound_closed, Function.update_idem, Task.run]

end Mixture

end HttpDispatch.EventStream
