import HttpDispatch.Proofs.EventStream.Interleaving
import Mathlib.Data.Multiset.AddSub

/-!
# What operations on an event stream are relied on for

Between two of its steps, an operation may have something to do that others depend on: a callback
that it has yet to register, or one that it has to run because it came too late, or the rest of the
shutdown (`EventStream.Duty`). What a task does next always agrees with its duty, whatever its acts
are answered (`EventStream.Task.Keeps`). An operation begins with no more than the callback that it
is to register, and ends with nothing.
-/

namespace HttpDispatch.EventStream

variable {ι κ α β : Type}

/-- What others rely on an operation for. -/
inductive Duty (κ : Type) where
  | free
  /-- It has a callback that is not registered yet. -/
  | registers (callback : κ)
  /-- It came too late, and runs its callback on its own. -/
  | late (callback : κ)
  | shuts
  | takes
  /-- It has taken the callbacks, and these are still to be run. -/
  | runs (callbacks : List κ)

/-- The callbacks that nobody else will run. -/
def Duty.owes : Duty κ → Multiset κ
  | .registers c | .late c => {c}
  | .runs cs => cs
  | .free | .shuts | .takes => 0

def Duty.locks : Duty κ → Bool
  | .registers _ | .takes => true
  | _ => false

/-- Whatever its acts are answered, the task does its duty. -/
def Task.Keeps : Task κ α → Duty κ → Prop
  | .done _, d => d = .free
  | .act .look next, d => d = .free ∧ ∀ answer, Keeps (next answer) .free
  | .act .mark next, d => d = .free ∧ Keeps (next true) .free ∧ Keeps (next false) .shuts
  | .act (.emit _) next, d => d = .free ∧ ∀ answer, Keeps (next answer) .free
  | .act .shut next, d => d = .shuts ∧ Keeps (next ()) .takes
  | .act (.register c) next, d =>
    d = .registers c ∧ Keeps (next true) .free ∧ Keeps (next false) (.late c)
  | .act .take next, d => d = .takes ∧ ∀ cs, Keeps (next cs) (.runs cs)
  | .act (.run c) next, d =>
    (∃ cs, d = .runs (c :: cs) ∧ Keeps (next ()) (.runs cs)) ∨ d = .late c ∧ Keeps (next ()) .free
  | .act .release next, d => d = .runs [] ∧ Keeps (next ()) .free
  | .act (.report _) next, d => d = .free ∧ Keeps (next ()) .free
  | .act .leave next, d => d = .free ∧ Keeps (next ()) .free

theorem Task.andThen_assoc {γ : Type} (t : Task κ α) (f : α → Task κ β) (g : β → Task κ γ) :
    (t.andThen f).andThen g = t.andThen fun a => (f a).andThen g := by
  induction t with
  | done a => rfl
  | act a next ih =>
      simp only [Task.andThen, ih]

theorem Task.keeps_runAll {k : Unit → Task κ β} (hk : (k ()).Keeps (.runs [])) (cs : List κ) :
    ((runAll cs).andThen k).Keeps (.runs cs) := by
  induction cs with
  | nil => exact hk
  | cons c cs ih => exact .inl ⟨cs, rfl, ih⟩

theorem Task.keeps_close {k : Unit → Task κ β} (hk : (k ()).Keeps .free) (id : RequestId) :
    ((close id).andThen k).Keeps .free := by
  refine ⟨rfl, hk, rfl, rfl, fun cs => ?_⟩
  have h := keeps_runAll (k := fun _ =>
    (act .release fun _ => act (.report (.eventStreamClosed id)) fun _ => done ()).andThen k)
    ⟨rfl, rfl, hk⟩ cs
  rw [← Task.andThen_assoc] at h
  exact h

theorem Task.keeps_send (id : RequestId) (b : Emitter.Block) :
    (send (κ := κ) id b).Keeps .free := by
  refine ⟨rfl, fun closed => ?_⟩
  cases closed with
  | true => rfl
  | false =>
      refine ⟨rfl, fun result => ?_⟩
      obtain ⟨e | ⟨⟩⟩ := result
      · exact keeps_close (by rfl) id
      · rfl

def Op.duty : Op κ → Duty κ
  | .call (.onClose c) => .registers c
  | .call _ | .drop => .free

theorem Op.owes_duty (o : Op κ) : o.duty.owes = o.callbacks := by
  obtain c | - := o
  · cases c <;> rfl
  · rfl

theorem Op.duty_ne_late (o : Op κ) (c : κ) : o.duty ≠ .late c := by
  obtain c' | - := o
  · cases c' <;> exact nofun
  · exact nofun

theorem Op.keeps_task (id : RequestId) (o : Op κ) : (o.task id).Keeps o.duty := by
  obtain c | - := o
  · cases c with
    | send e => exact Task.keeps_send id _
    | comment t => exact Task.keeps_send id _
    | onClose c => exact ⟨rfl, rfl, .inr ⟨rfl, rfl⟩⟩
    | close => exact Task.keeps_close (by rfl) id
  · have h := Task.keeps_close (κ := κ) (k := fun _ =>
      (Task.act .leave fun _ => .done ()).andThen fun _ => .done (.ok () : Except StreamEnded Unit))
      ⟨rfl, rfl⟩ id
    rw [← Task.andThen_assoc] at h
    exact h

/-- Only who has something to do under the lock takes it. -/
theorem Task.Keeps.locks {a : Act κ} {next : a.Answer → Task κ α} {d : Duty κ}
    (h : (Task.act a next).Keeps d) (hd : d.locks = true) : a.locks = true := by
  cases a with
  | register c => rfl
  | take => rfl
  | run c =>
      obtain ⟨cs, rfl, -⟩ | ⟨rfl, -⟩ := h <;> cases hd
  | _ =>
      obtain ⟨rfl, -⟩ := h
      cases hd

end HttpDispatch.EventStream
