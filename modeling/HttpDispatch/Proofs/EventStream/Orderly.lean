import HttpDispatch.Proofs.EventStream.Shutdown

/-!
# Event streams that are used by many at once

`EventStream.Mixture.orderly_after` says what can be relied on when the session and any number of
clients use a stream at the same time, on a writer that may fail and change at any moment: the
stream is shut down by one operation, once; a callback is run only when the flag is set, and in the
end each has been run once and the session released once; and from the moment at which the emitter
is shut nothing is sent, and what is still sending fails.
-/

namespace HttpDispatch.EventStream

variable {ι κ : Type}

/-- What the act may be answered if the emitter is shut. -/
def Act.Allows : (a : Act κ) → a.Answer → Prop
  | .emit _, answer => answer = .error .closed
  | _, _ => True

def Task.FailsWhenShut : Task κ (Except StreamEnded Unit) → Prop
  | .done result => result = .error .closed
  | .act a next => ∀ answer, a.Allows answer → FailsWhenShut (next answer)

/-- Whenever the emitter is shut, the task fails, unless it has returned before. -/
def Task.Sends : Task κ (Except StreamEnded Unit) → Prop
  | .done _ => True
  | .act a next => FailsWhenShut (.act a next) ∧ ∀ answer, Sends (next answer)

theorem Task.Sends.failsWhenShut {t : Task κ (Except StreamEnded Unit)} (h : t.Sends)
    (ht : ¬ ∃ r, t = .done r) : t.FailsWhenShut := by
  cases t with
  | done r => exact absurd ⟨r, rfl⟩ ht
  | act a next => exact h.1

theorem Task.failsWhenShut_andThen (t : Task κ Unit) :
    (t.andThen fun _ => .done (.error .closed)).FailsWhenShut := by
  induction t with
  | done r => rfl
  | act a next ih => exact fun answer _ => ih answer

theorem Task.sends_andThen (t : Task κ Unit) :
    (t.andThen fun _ => .done (.error .closed)).Sends := by
  induction t with
  | done r => trivial
  | act a next ih => exact ⟨fun answer _ => failsWhenShut_andThen (next answer), ih⟩

theorem Task.failsWhenShut_send (id : RequestId) (b : Emitter.Block) :
    (send (κ := κ) id b).FailsWhenShut := by
  intro closed _
  cases closed with
  | true => rfl
  | false =>
      rintro result rfl
      exact failsWhenShut_andThen _

theorem Task.sends_send (id : RequestId) (b : Emitter.Block) : (send (κ := κ) id b).Sends := by
  refine ⟨failsWhenShut_send id b, fun closed => ?_⟩
  cases closed with
  | true => trivial
  | false =>
      refine ⟨failsWhenShut_send id b false trivial, fun result => ?_⟩
      obtain ⟨⟨⟩ | ⟨⟩⟩ := result
      · exact sends_andThen _
      · trivial

def Op.Sends : Op κ → Prop
  | .call (.send _) | .call (.comment _) => True
  | .call _ | .drop => False

theorem Op.Sends.task {o : Op κ} (h : o.Sends) (id : RequestId) : (o.task id).Sends := by
  obtain (c | -) := o
  · cases c with
    | send e => exact Task.sends_send id _
    | comment t => exact Task.sends_send id _
    | _ => exact h.elim
  · exact h.elim

theorem emitter_release (s : EventStream κ) :
    (s.perform .release).2.emitter.state = s.emitter.state ∧
      (s.perform .release).2.emitter.out = s.emitter.out := by
  simp only [perform]
  split
  · exact ⟨rfl, rfl⟩
  · split
    · exact ⟨rfl, rfl⟩
    · exact ⟨rfl, rfl⟩

theorem dead_performFound {s : EventStream κ} (h : s.emitter.state = .shut) (found : Bool)
    (a : Act κ) :
    (s.performFound found a).2.emitter.state = .shut ∧
      (s.performFound found a).2.emitter.out = s.emitter.out ∧
      a.Allows (s.performFound found a).1 := by
  cases a with
  | emit b =>
      have hemit : s.emitter.emit b = (.error .closed, s.emitter) := by rw [Emitter.emit, h]
      change (s.emitter.emit b).2.state = .shut ∧ (s.emitter.emit b).2.out = s.emitter.out ∧
        (s.emitter.emit b).1 = .error .closed
      rw [hemit]
      exact ⟨h, rfl, rfl⟩
  | shut =>
      have hclose : s.emitter.close = (false, s.emitter) := by rw [Emitter.close, h]
      change s.emitter.close.2.state = .shut ∧ s.emitter.close.2.out = s.emitter.out ∧ True
      rw [hclose]
      exact ⟨h, rfl, trivial⟩
  | register c =>
      cases found with
      | true => exact ⟨h, rfl, trivial⟩
      | false => exact ⟨h, rfl, trivial⟩
  | release =>
      obtain ⟨hstate, hout⟩ := emitter_release s
      exact ⟨hstate.trans h, hout, trivial⟩
  | _ => exact ⟨h, rfl, trivial⟩

namespace Mixture

variable [DecidableEq ι] {m : Mixture ι κ}

/-- The emitter is shut, and has passed on the given bytes. -/
def Dead (m : Mixture ι κ) (written : Bytes) : Prop :=
  m.stream.emitter.state = .shut ∧ m.stream.emitter.out.written = written

theorem update_task {P : Task κ (Except StreamEnded Unit) → Prop} {i j : ι}
    {t : Task κ (Except StreamEnded Unit)} (hj : P (m.task j)) (ht : j = i → P t) :
    P (Function.update m.task i t j) := by
  by_cases h : j = i
  · subst h
    rw [Function.update_self]
    exact ht rfl
  · rw [Function.update_of_ne h]
    exact hj

theorem Dead.move {written : Bytes} (h : m.Dead written) (p : Pick ι) :
    (m.move p).Dead written ∧ ∀ j, (m.task j).FailsWhenShut →
      ((m.move p).task j).FailsWhenShut := by
  cases p with
  | turn limit flushFailure => exact ⟨h, fun _ hj => hj⟩
  | step i =>
      rw [Mixture.move]
      obtain hstep | ⟨a, next, ht, ha, -, hstep⟩ | ⟨a, next, found, ht, hlock, hstep⟩ :=
        m.step_cases i
      · rw [hstep]
        exact ⟨h, fun _ hj => hj⟩
      · rw [hstep]
        exact ⟨h, fun _ hj => hj⟩
      · obtain ⟨hshut, hout, hallows⟩ := dead_performFound h.1 found a
        rw [hstep]
        refine ⟨⟨hshut, (congrArg Writer.written hout).trans h.2⟩, fun j hj => update_task hj ?_⟩
        rintro rfl
        rw [ht] at hj
        exact hj _ hallows

/-- Once the emitter is shut, nothing is sent, and what fails goes on failing. -/
theorem Dead.after {written : Bytes} (h : m.Dead written) (ps : List (Pick ι)) :
    (m.after ps).Dead written ∧ ∀ j, (m.task j).FailsWhenShut →
      ((m.after ps).task j).FailsWhenShut := by
  induction ps generalizing m with
  | nil => exact ⟨h, fun _ hj => hj⟩
  | cons p ps ih =>
      obtain ⟨hmove, htasks⟩ := h.move p
      obtain ⟨hafter, htasks'⟩ := ih hmove
      exact ⟨hafter, fun j hj => htasks' j (htasks j hj)⟩

theorem sends_move {j : ι} (h : (m.task j).Sends) (p : Pick ι) : ((m.move p).task j).Sends := by
  cases p with
  | turn limit flushFailure => exact h
  | step i =>
      rw [Mixture.move]
      obtain hstep | ⟨a, next, ht, ha, -, hstep⟩ | ⟨a, next, found, ht, hlock, hstep⟩ :=
        m.step_cases i
      · rw [hstep]
        exact h
      · rw [hstep]
        exact h
      · rw [hstep]
        refine update_task h ?_
        rintro rfl
        rw [ht] at h
        exact h.2 _

theorem sends_after {j : ι} (h : (m.task j).Sends) (ps : List (Pick ι)) :
    ((m.after ps).task j).Sends := by
  induction ps generalizing m with
  | nil => exact h
  | cons p ps ih => exact ih (sends_move h p)

/-- What can be relied on, in whichever order the steps are taken that have led to `m`. -/
structure Orderly (callbacks : Multiset κ) (ops : ι → Op κ) (acts : List (ι × Act κ))
    (m : Mixture ι κ) : Prop where
  /-- One operation at most shuts the stream down, and does so once. -/
  alone : (∀ e ∈ stages acts, ∀ e' ∈ stages acts, e.1 = e'.1) ∧
    (stages acts).map Prod.snd <+: [.shut, .take, .release]
  /-- A callback is run only if the flag is set. -/
  flagged : ∀ i c next, m.task i = .act (.run c) next → m.stream.closed = true
  /-- When all have returned and the flag is set, each callback has run once, and the signal was
  sent once. -/
  complete : (∀ i, ∃ r, m.task i = .done r) → m.stream.closed = true →
    (m.stream.ran : Multiset κ) = callbacks ∧ m.stream.callbacks = [] ∧ m.stream.signals = 1
  /-- After the emitter has been shut, no byte is sent, and whatever is still sending fails. -/
  dead : m.stream.emitter.isShut = true → ∀ ps,
    (m.after ps).stream.emitter.isShut = true ∧
      (m.after ps).stream.emitter.out.written = m.stream.emitter.out.written ∧
      ∀ i, (ops i).Sends → (¬ ∃ r, m.task i = .done r) →
        ∀ r, (m.after ps).task i = .done r → r = .error .closed

variable [Fintype ι]

/-- Operations on an open stream, whatever they are and in whichever order they take their steps. -/
theorem orderly_after {s : EventStream κ} {cs : List κ} (h : s.IsOpen cs) (ops : ι → Op κ)
    (ps : List (Pick ι)) :
    Orderly ((cs : Multiset κ) + ∑ i, ((ops i).callbacks : Multiset κ)) ops ((start s ops).trace ps)
      ((start s ops).after ps) := by
  obtain ⟨duty, ph, hinv⟩ := (inv_start h ops).after ps
  rw [List.nil_append] at hinv
  refine ⟨?_, fun i c next => hinv.closed_of_run, hinv.over_of_done, fun hshut qs => ?_⟩
  · rw [hinv.stages]
    exact ph.stages_prefix
  · obtain ⟨⟨hshut', hwritten⟩, hfails⟩ := Dead.after ⟨(Emitter.isShut_iff _).1 hshut, rfl⟩ qs
    refine ⟨(Emitter.isShut_iff _).2 hshut', hwritten, fun i hi hgoing r hr => ?_⟩
    have hsends : (((start s ops).after ps).task i).Sends := sends_after (hi.task s.id) ps
    have hfail := hfails i (hsends.failsWhenShut hgoing)
    rw [hr] at hfail
    exact hfail

def brokenOff : EventStream Nat := ofWriter { limit := some 3 } ⟨0⟩ none

def meeting : Fin 4 → Op Nat
  | 0 => .call (.onClose 7)
  | 1 => .call (.send { data := "hello" })
  | 2 => .call (.onClose 8)
  | 3 => .call .close

/-- The first callback is still added after the flag has been set, as it was found unset; the second
one comes too late, and is run first. -/
def mixed : List (Pick (Fin 4)) :=
  [.step 0, .step 1, .step 1, .step 1, .step 0, .step 2, .step 1, .step 1, .step 2, .step 1,
    .step 1, .step 2, .step 1, .step 1, .step 1, .turn none none, .step 3]

theorem orderly_after_mixed :
    brokenOff.IsOpen [] ∧
      Orderly ((([] : List Nat) : Multiset Nat) + ∑ i, ((meeting i).callbacks : Multiset Nat))
        meeting ((start brokenOff meeting).trace mixed) ((start brokenOff meeting).after mixed) ∧
      ((start brokenOff meeting).after mixed).stream.closed = true ∧
      ((start brokenOff meeting).after mixed).stream.ran = [8, 7] ∧
      ((start brokenOff meeting).after mixed).stream.signals = 1 ∧
      stages ((start brokenOff meeting).trace mixed) = [(1, .shut), (1, .take), (1, .release)] := by
  have hopen : brokenOff.IsOpen [] := ⟨rfl, rfl, rfl, rfl, rfl⟩
  exact ⟨hopen, orderly_after hopen meeting mixed,
    by decide +kernel, by decide +kernel, by decide +kernel, by decide +kernel⟩

end Mixture

end HttpDispatch.EventStream
