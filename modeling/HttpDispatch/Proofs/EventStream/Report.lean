import HttpDispatch.EventStream.Session
import HttpDispatch.Proofs.Agreement

/-!
# Event streams do not depend on the report

An emitter carries the report of its exchange, and no act on an event stream reads it; so no task
does.
-/

namespace HttpDispatch

namespace Emitter

def unreported (e : Emitter) : Emitter := { e with log := [] }

variable {e e' : Emitter}

theorem exists_log (h : e.unreported = e'.unreported) : ∃ l, e' = { e with log := l } := by
  refine ⟨e'.log, ?_⟩
  have he : e' = { e'.unreported with log := e'.log } := rfl
  rw [he, ← h]
  rfl

theorem agrees_emit (b : Block) (h : e.unreported = e'.unreported) :
    Agrees unreported (e.emit b) (e'.emit b) := by
  obtain ⟨l, rfl⟩ := exists_log h
  cases e with
  | mk state out log =>
      cases state with
      | shut => exact .of_eq rfl
      | muted => exact .of_eq rfl
      | sending =>
          unfold emit
          simp only
          rcases out.writeAll b.bytes with ⟨cause | ⟨⟩, out⟩
          · exact .of_eq rfl
          · simp only
            rcases out.flush with ⟨cause | ⟨⟩, out⟩
            · exact .of_eq rfl
            · exact .of_eq rfl

theorem agrees_close (h : e.unreported = e'.unreported) :
    Agrees unreported e.close e'.close := by
  obtain ⟨l, rfl⟩ := exists_log h
  cases e with
  | mk state out log =>
      cases state with
      | shut => exact .of_eq rfl
      | muted => exact .of_eq rfl
      | sending =>
          unfold close
          simp only
          rcases out.flush with ⟨cause | ⟨⟩, out⟩
          · exact .of_eq rfl
          · exact .of_eq rfl

end Emitter

namespace EventStream

variable {κ α : Type} {s s' : EventStream κ}

def unreported (s : EventStream κ) : EventStream κ := { s with emitter := s.emitter.unreported }

theorem exists_log (h : s.unreported = s'.unreported) :
    ∃ l, s' = { s with emitter := { s.emitter with log := l } } := by
  refine ⟨s'.emitter.log, ?_⟩
  have hs : s' =
      { s'.unreported with emitter := { s'.unreported.emitter with log := s'.emitter.log } } := rfl
  rw [hs, ← h]
  rfl

theorem agrees_perform (a : Act κ) (h : s.unreported = s'.unreported) :
    Agrees unreported (s.perform a) (s'.perform a) := by
  obtain ⟨l, rfl⟩ := exists_log h
  cases a with
  | emit b =>
      have hemit := Emitter.agrees_emit b (congrArg EventStream.emitter h)
      exact ⟨hemit.result, congrArg (fun e => { s with emitter := e }) hemit.state⟩
  | shut =>
      have hclose := Emitter.agrees_close (congrArg EventStream.emitter h)
      exact ⟨rfl, congrArg (fun e => { s with emitter := e }) hclose.state⟩
  | register c => exact .ite (fun _ => .of_eq rfl) fun _ => .of_eq rfl
  | release =>
      cases s with
      | mk id remote emitter closed callbacks ran armed signals waiting =>
          cases armed with
          | false => exact .of_eq rfl
          | true =>
              cases waiting with
              | false => exact .of_eq rfl
              | true => exact .of_eq rfl
  | look => exact .of_eq rfl
  | mark => exact .of_eq rfl
  | take => exact .of_eq rfl
  | run c => exact .of_eq rfl
  | report e => exact .of_eq rfl
  | leave => exact .of_eq rfl

theorem agrees_run (t : Task κ α) (h : s.unreported = s'.unreported) :
    Agrees unreported (t.run s) (t.run s') := by
  induction t generalizing s s' with
  | done a => exact .of_eq h
  | act a next ih =>
      have hact := agrees_perform a h
      unfold Task.run
      refine hact.elim fun answer s s' hs => ?_
      exact ih answer hs

end EventStream

end HttpDispatch
