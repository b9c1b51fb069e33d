import HttpDispatch.Proofs.EventStream.Duty
import Mathlib.Algebra.BigOperators.Group.Finset.Piecewise
import Mathlib.Algebra.Order.Group.Multiset
import Mathlib.Data.Fintype.Basic
import Mathlib.Tactic.Abel

/-!
# How an event stream is shut down

Who sets the flag first has the stream to shut down: the emitter is shut, the callbacks are taken
and run, and the session is released. Nobody else does any of it, in whichever order the operations
take their steps, and no callback is lost: it has been run, or it waits, or it is owed by somebody
(`EventStream.Mixture.Inv`). What has to be seen for this is that a callback is never added after
the callbacks have been taken, although the flag may have been set by then: who registers one has
held the lock since the flag was found unset.
-/

namespace HttpDispatch.EventStream

variable {ι κ : Type}

/-- What closing a stream consists of, apart from the callbacks. -/
inductive Stage where
  | shut
  | take
  | release
deriving DecidableEq, Repr

def Act.stage? : Act κ → Option Stage
  | .shut => some .shut
  | .take => some .take
  | .release => some .release
  | _ => none

def stages (acts : List (ι × Act κ)) : List (ι × Stage) :=
  acts.filterMap fun e => e.2.stage?.map (e.1, ·)

/-!
## How far the stream is shut down
-/

inductive Phase (ι κ : Type) where
  | before
  | shutting (i : ι)
  | taking (i : ι)
  | running (i : ι) (callbacks : List κ)
  | finished (i : ι)

namespace Phase

def stages : Phase ι κ → List (ι × Stage)
  | before | shutting _ => []
  | taking i => [(i, .shut)]
  | running i _ => [(i, .shut), (i, .take)]
  | finished i => [(i, .shut), (i, .take), (i, .release)]

def taken : Phase ι κ → Bool
  | running _ _ | finished _ => true
  | _ => false

def closed : Phase ι κ → Bool
  | before => false
  | _ => true

def armed : Phase ι κ → Bool
  | finished _ => false
  | _ => true

/-- The duty of an operation, if the shutdown is up to it. -/
def duty? [DecidableEq ι] (i : ι) : Phase ι κ → Option (Duty κ)
  | before | finished _ => none
  | shutting j => if i = j then some .shuts else none
  | taking j => if i = j then some .takes else none
  | running j cs => if i = j then some (.runs cs) else none

variable [DecidableEq ι] {ph : Phase ι κ} {i j : ι}

theorem eq_shutting_of_duty? (h : ph.duty? i = some .shuts) : ph = .shutting i := by
  unfold duty? at h
  split at h <;> simp_all

theorem eq_taking_of_duty? (h : ph.duty? i = some .takes) : ph = .taking i := by
  unfold duty? at h
  split at h <;> simp_all

theorem eq_running_of_duty? {cs : List κ} (h : ph.duty? i = some (.runs cs)) :
    ph = .running i cs := by
  unfold duty? at h
  split at h <;> simp_all

theorem duty?_shutting (i j : ι) :
    (shutting j : Phase ι κ).duty? i = if i = j then some .shuts else none := rfl

theorem duty?_taking (i j : ι) :
    (taking j : Phase ι κ).duty? i = if i = j then some .takes else none := rfl

theorem duty?_running (i j : ι) (cs : List κ) :
    (running j cs : Phase ι κ).duty? i = if i = j then some (.runs cs) else none := rfl

omit [DecidableEq ι]

structure Describes (ph : Phase ι κ) (s : EventStream κ) : Prop where
  closed : s.closed = ph.closed
  armed : s.armed = ph.armed
  signals : s.signals = if ph.armed then 0 else 1
  callbacks : ph.taken = true → s.callbacks = []

end Phase

def Duty.ofShutdown? : Duty κ → Option (Duty κ)
  | .shuts => some .shuts
  | .takes => some .takes
  | .runs cs => some (.runs cs)
  | _ => none

theorem fields_release {s : EventStream κ} (h : s.armed = true) :
    (s.perform .release).2.closed = s.closed ∧ (s.perform .release).2.armed = false ∧
      (s.perform .release).2.signals = s.signals + 1 ∧
      (s.perform .release).2.callbacks = s.callbacks ∧
      (s.perform .release).2.ran = s.ran := by
  simp only [perform, h, Bool.not_true, Bool.false_eq_true, if_false]
  split <;> exact ⟨rfl, rfl, rfl, rfl, rfl⟩

theorem Op.ofShutdown?_duty (o : Op κ) : o.duty.ofShutdown? = none := by
  obtain c | - := o
  · cases c <;> rfl
  · rfl

namespace Mixture

variable [Fintype ι] [DecidableEq ι] {total : Multiset κ} {acts : List (ι × Act κ)}
    {m : Mixture ι κ}
  {duty : ι → Duty κ} {ph : Phase ι κ}

/-- Everybody does the duty that he has, the duties are those that belong to the phase, and of all
callbacks each is run, or waits, or is owed by somebody. -/
structure Inv (total : Multiset κ) (acts : List (ι × Act κ)) (m : Mixture ι κ) (duty : ι → Duty κ)
    (ph : Phase ι κ) : Prop where
  keeps : ∀ i, (m.task i).Keeps (duty i)
  account : (m.stream.ran : Multiset κ) + m.stream.callbacks + ∑ i, (duty i).owes = total
  describes : ph.Describes m.stream
  stages : EventStream.stages acts = ph.stages
  shutdown : ∀ i, (duty i).ofShutdown? = ph.duty? i
  late : ∀ i c, duty i = .late c → m.stream.closed = true
  lock : ∀ i found, m.holder = some (i, found) → (duty i).locks = true ∧
    (found = true → m.stream.closed = true) ∧
    (∀ c, duty i = .registers c → found = false → ph.taken = false)

theorem sum_owes_update (duty : ι → Duty κ) (i : ι) (d : Duty κ) :
    ∑ j, (Function.update duty i d j).owes + (duty i).owes = ∑ j, (duty j).owes + d.owes := by
  have hupdate : (fun j => (Function.update duty i d j).owes) =
      Function.update (fun j => (duty j).owes) i d.owes := by
    funext j
    exact Function.apply_update (fun _ => Duty.owes) duty i d j
  rw [hupdate, Finset.sum_update_of_mem (Finset.mem_univ i),
    Finset.sum_eq_add_sum_sdiff_singleton_of_mem (Finset.mem_univ i) fun j => (duty j).owes]
  abel

/-- Who has the lock after an act was completed has had it before, and has not completed the act. -/
theorem Inv.holder_complete (h : Inv total acts m duty ph) {i j : ι} {a : Act κ}
    {found found' : Bool} {next : a.Answer → Task κ (Except StreamEnded Unit)}
    (ht : m.task i = .act a next)
    (hholder : (m.complete i found a next).holder = some (j, found')) :
    a.locks = false ∧ m.holder = some (j, found') ∧ j ≠ i := by
  change (if a.locks = true then none else m.holder) = _ at hholder
  split at hholder
  · cases hholder
  · next ha =>
      refine ⟨Bool.eq_false_iff.2 ha, hholder, ?_⟩
      rintro rfl
      have hkeeps := h.keeps j
      rw [ht] at hkeeps
      exact ha (hkeeps.locks (h.lock j found' hholder).1)

/-- What is to be shown of an act that is completed, and of the duty and the phase that
it leads to. -/
theorem Inv.put (h : Inv total acts m duty ph) {i : ι} {a : Act κ}
    {next : a.Answer → Task κ (Except StreamEnded Unit)} {found : Bool}
    (ht : m.task i = .act a next)
    (d : Duty κ) (ph' : Phase ι κ)
    (hkeeps : (next (m.stream.performFound found a).1).Keeps d)
    (haccount : ((m.stream.performFound found a).2.ran : Multiset κ) +
      (m.stream.performFound found a).2.callbacks + d.owes =
        m.stream.ran + m.stream.callbacks + (duty i).owes)
    (hdescribes : ph'.Describes (m.stream.performFound found a).2)
    (hstages : ph'.stages = ph.stages ++ EventStream.stages [(i, a)])
    (hself : d.ofShutdown? = ph'.duty? i)
    (hothers : ∀ j ≠ i, ph'.duty? j = ph.duty? j)
    (hlate : ∀ c, d = .late c → (m.stream.performFound found a).2.closed = true)
    (hclosed : m.stream.closed = true → (m.stream.performFound found a).2.closed = true)
    (htaken : a.locks = false → ph.taken = false → ph'.taken = false) :
    Inv total (acts ++ [(i, a)]) (m.complete i found a next) (Function.update duty i d) ph' where
  keeps := by
    refine (Function.forall_update_iff m.task fun j t => t.Keeps (Function.update duty i d j)).2
      ⟨?_, ?_⟩
    · rw [Function.update_self]
      exact hkeeps
    · intro j hj
      rw [Function.update_of_ne hj]
      exact h.keeps j
  account := by
    have hsum := sum_owes_update duty i d
    refine add_right_cancel (b := (duty i).owes) ?_
    change ((m.stream.performFound found a).2.ran : Multiset κ) +
      (m.stream.performFound found a).2.callbacks + _ + _ = _
    rw [add_assoc, hsum, ← h.account, add_left_comm _ _ d.owes, haccount]
    abel
  describes := hdescribes
  stages := by
    rw [EventStream.stages, List.filterMap_append, hstages, ← h.stages]
    rfl
  shutdown := (Function.forall_update_iff duty fun j d => d.ofShutdown? = ph'.duty? j).2
    ⟨hself, fun j hj => (h.shutdown j).trans (hothers j hj).symm⟩
  late := (Function.forall_update_iff duty fun _ d => ∀ c, d = .late c → _).2
    ⟨hlate, fun j _ c hd => hclosed (h.late j c hd)⟩
  lock j found' hholder := by
    obtain ⟨ha, hholder, hj⟩ := h.holder_complete ht hholder
    obtain ⟨hlocks, hfound, htaken'⟩ := h.lock j found' hholder
    rw [Function.update_of_ne hj]
    exact ⟨hlocks, fun hf => hclosed (hfound hf), fun c hd hf => htaken ha (htaken' c hd hf)⟩

theorem Inv.put_free (h : Inv total acts m duty ph) {i : ι} {a : Act κ}
    {next : a.Answer → Task κ (Except StreamEnded Unit)} {found : Bool}
    (ht : m.task i = .act a next)
    (hd : duty i = .free) (hkeeps : (next (m.stream.performFound found a).1).Keeps .free)
    (hstage : a.stage? = none)
    (hclosed : (m.stream.performFound found a).2.closed = m.stream.closed)
    (harmed : (m.stream.performFound found a).2.armed = m.stream.armed)
    (hsignals : (m.stream.performFound found a).2.signals = m.stream.signals)
    (hcallbacks : (m.stream.performFound found a).2.callbacks = m.stream.callbacks)
    (hran : (m.stream.performFound found a).2.ran = m.stream.ran) :
    Inv total (acts ++ [(i, a)]) (m.complete i found a next) (Function.update duty i .free) ph := by
  obtain ⟨hc, ha, hs, hcs⟩ := h.describes
  refine h.put ht .free ph hkeeps ?_ ⟨hclosed.trans hc,
    harmed.trans ha, hsignals.trans hs, ?_⟩ ?_ ?_
    (fun _ _ => rfl) nofun (fun h' => hclosed.trans h') fun _ h' => h'
  · rw [hran, hcallbacks, hd]
  · exact fun h' => hcallbacks.trans (hcs h')
  · simp [EventStream.stages, hstage]
  · rw [← h.shutdown i, hd]

/-!
### The acts that duties depend on
-/

section

variable {i : ι} {found : Bool}

/-- The first to set the flag has the shutdown to do. -/
theorem Inv.mark (h : Inv total acts m duty ph) {next : Bool → Task κ (Except StreamEnded Unit)}
    (ht : m.task i = .act .mark next) :
    ∃ duty' ph', Inv total (acts ++ [(i, .mark)]) (m.complete i found .mark next) duty' ph' := by
  have hkeeps := h.keeps i
  rw [ht] at hkeeps
  obtain ⟨hd, hlate, hfirst⟩ := hkeeps
  obtain ⟨hc, harmed, hsignals, -⟩ := h.describes
  cases hclosed : m.stream.closed with
  | true =>
      have hnext : (next m.stream.closed).Keeps .free := by rw [hclosed]; exact hlate
      exact ⟨_, _, h.put_free ht hd hnext rfl hclosed.symm rfl rfl rfl rfl⟩
  | false =>
      have hnext : (next m.stream.closed).Keeps .shuts := by rw [hclosed]; exact hfirst
      rw [hclosed] at hc
      cases ph with
      | before =>
          refine ⟨_, _, h.put ht .shuts (.shutting i) hnext ?_ ⟨rfl, harmed, hsignals, nofun⟩ rfl
            ?_ ?_ nofun (fun _ => rfl) fun _ _ => rfl⟩
          · rw [hd]
            rfl
          · rw [Phase.duty?_shutting, if_pos rfl]
            rfl
          · intro j hj
            rw [Phase.duty?_shutting, if_neg hj]
            rfl
      | _ => cases hc

theorem Inv.shut (h : Inv total acts m duty ph) {next : Unit → Task κ (Except StreamEnded Unit)}
    (ht : m.task i = .act .shut next) :
    ∃ duty' ph', Inv total (acts ++ [(i, .shut)]) (m.complete i found .shut next) duty' ph' := by
  have hkeeps := h.keeps i
  have hshutdown := h.shutdown i
  rw [ht] at hkeeps
  obtain ⟨hd, hnext⟩ := hkeeps
  obtain ⟨hc, harmed, hsignals, -⟩ := h.describes
  rw [hd] at hshutdown
  cases Phase.eq_shutting_of_duty? hshutdown.symm
  refine ⟨_, _, h.put ht .takes (.taking i) hnext ?_ ⟨hc, harmed, hsignals, nofun⟩ rfl ?_ ?_
    nofun (fun h' => h') fun _ _ => rfl⟩
  · rw [hd]
    rfl
  · rw [Phase.duty?_taking, if_pos rfl]
    rfl
  · intro j hj
    rw [Phase.duty?_taking, Phase.duty?_shutting, if_neg hj, if_neg hj]

theorem Inv.take (h : Inv total acts m duty ph) {next : List κ → Task κ (Except StreamEnded Unit)}
    (ht : m.task i = .act .take next) :
    ∃ duty' ph', Inv total (acts ++ [(i, .take)]) (m.complete i found .take next) duty' ph' := by
  have hkeeps := h.keeps i
  have hshutdown := h.shutdown i
  rw [ht] at hkeeps
  obtain ⟨hd, hnext⟩ := hkeeps
  obtain ⟨hc, harmed, hsignals, -⟩ := h.describes
  rw [hd] at hshutdown
  cases Phase.eq_taking_of_duty? hshutdown.symm
  refine ⟨_, _, h.put ht (.runs m.stream.callbacks) (.running i m.stream.callbacks) (hnext _) ?_
    ⟨hc, harmed, hsignals, fun _ => rfl⟩ rfl ?_ ?_ nofun (fun h' => h') nofun⟩
  · rw [hd]
    exact add_right_comm _ _ _
  · rw [Phase.duty?_running, if_pos rfl]
    rfl
  · intro j hj
    rw [Phase.duty?_running, Phase.duty?_taking, if_neg hj, if_neg hj]

theorem Inv.run (h : Inv total acts m duty ph) {c : κ}
    {next : Unit → Task κ (Except StreamEnded Unit)} (ht : m.task i = .act (.run c) next) :
    ∃ duty' ph', Inv total (acts ++ [(i, .run c)])
      (m.complete i found (.run c) next) duty' ph' := by
  have hkeeps := h.keeps i
  have hshutdown := h.shutdown i
  rw [ht] at hkeeps
  obtain ⟨hc, harmed, hsignals, hcallbacks⟩ := h.describes
  have hran : ((m.stream.ran ++ [c] : List κ) : Multiset κ) = m.stream.ran + {c} :=
    (Multiset.coe_add _ _).symm
  obtain ⟨cs, hd, hnext⟩ | ⟨hd, hnext⟩ := hkeeps
  · rw [hd] at hshutdown
    cases Phase.eq_running_of_duty? hshutdown.symm
    refine ⟨_, _, h.put ht (.runs cs) (.running i cs) hnext ?_
      ⟨hc, harmed, hsignals, hcallbacks⟩ rfl ?_ ?_ nofun (fun h' => h') fun _ h' => h'⟩
    · have hcons : ((c :: cs : List κ) : Multiset κ) = {c} + cs := rfl
      rw [hd]
      change ((m.stream.ran ++ [c] : List κ) : Multiset κ) + m.stream.callbacks + cs =
        m.stream.ran + m.stream.callbacks + ((c :: cs : List κ) : Multiset κ)
      rw [hran, hcons]
      abel
    · rw [Phase.duty?_running, if_pos rfl]
      rfl
    · intro j hj
      rw [Phase.duty?_running, Phase.duty?_running, if_neg hj, if_neg hj]
  · refine ⟨_, _, h.put ht .free ph hnext ?_ ⟨hc, harmed, hsignals, hcallbacks⟩ ?_ ?_
      (fun _ _ => rfl) nofun (fun h' => h') fun _ h' => h'⟩
    · rw [hd]
      change ((m.stream.ran ++ [c] : List κ) : Multiset κ) + m.stream.callbacks + 0 =
        m.stream.ran + m.stream.callbacks + {c}
      rw [hran]
      abel
    · exact (List.append_nil _).symm
    · rw [← hshutdown, hd]
      rfl

theorem Inv.release (h : Inv total acts m duty ph) {next : Unit → Task κ (Except StreamEnded Unit)}
    (ht : m.task i = .act .release next) :
    ∃ duty' ph', Inv total (acts ++ [(i, .release)])
      (m.complete i found .release next) duty' ph' := by
  have hkeeps := h.keeps i
  have hshutdown := h.shutdown i
  rw [ht] at hkeeps
  obtain ⟨hd, hnext⟩ := hkeeps
  obtain ⟨hc, harmed, hsignals, hcallbacks⟩ := h.describes
  rw [hd] at hshutdown
  cases Phase.eq_running_of_duty? hshutdown.symm
  obtain ⟨hclosed', harmed', hsignals', hcallbacks', hran'⟩ := fields_release (s := m.stream) harmed
  refine ⟨_, _, h.put ht .free (.finished i) hnext ?_ ⟨hclosed'.trans hc, harmed', ?_, ?_⟩ rfl ?_ ?_
    nofun (fun h' => hclosed'.trans h') fun _ h' => h'⟩
  · change ((m.stream.perform .release).2.ran : Multiset κ) +
      (m.stream.perform .release).2.callbacks + 0 = _
    rw [hd, hran', hcallbacks']
    rfl
  · exact hsignals'.trans (congrArg (· + 1) hsignals)
  · exact fun _ => hcallbacks'.trans (hcallbacks rfl)
  · rfl
  · intro j hj
    rw [Phase.duty?_running, if_neg hj]
    rfl

theorem Inv.register (h : Inv total acts m duty ph) {c : κ}
    {next : Bool → Task κ (Except StreamEnded Unit)} (ht : m.task i = .act (.register c) next)
    (hlock : m.holder = some (i, found)) :
    ∃ duty' ph', Inv total (acts ++ [(i, .register c)])
      (m.complete i found (.register c) next) duty' ph' := by
  have hkeeps := h.keeps i
  have hshutdown := h.shutdown i
  rw [ht] at hkeeps
  obtain ⟨hd, hadded, hrefused⟩ := hkeeps
  obtain ⟨hc, harmed, hsignals, hcallbacks⟩ := h.describes
  obtain ⟨-, hfound, htaken⟩ := h.lock i found hlock
  have hfree : (Duty.free : Duty κ).ofShutdown? = ph.duty? i := by
    rw [← hshutdown, hd]
    rfl
  cases found with
  | true =>
      refine ⟨_, _, h.put ht (.late c) ph hrefused ?_ h.describes ?_ hfree (fun _ _ => rfl)
        (fun _ _ => hfound rfl) (fun h' => h') fun _ h' => h'⟩
      · rw [hd]
        rfl
      · exact (List.append_nil _).symm
  | false =>
      have hnot := htaken c hd rfl
      refine ⟨_, _, h.put ht .free ph hadded ?_ ⟨hc, harmed, hsignals, ?_⟩ ?_ hfree (fun _ _ => rfl)
        nofun (fun h' => h') fun _ h' => h'⟩
      · have hadd :
            ((m.stream.callbacks ++ [c] : List κ) : Multiset κ) = m.stream.callbacks + {c} :=
          (Multiset.coe_add _ _).symm
        rw [hd]
        change (m.stream.ran : Multiset κ) +
          ((m.stream.callbacks ++ [c] : List κ) : Multiset κ) + 0 =
          m.stream.ran + m.stream.callbacks + {c}
        rw [hadd]
        abel
      · rw [hnot]
        exact nofun
      · exact (List.append_nil _).symm

end

/-- Whoever completes an act, all duties are done afterwards. -/
theorem Inv.exists_complete (h : Inv total acts m duty ph) {i : ι} {a : Act κ}
    {next : a.Answer → Task κ (Except StreamEnded Unit)} {found : Bool}
    (ht : m.task i = .act a next)
    (hlock : a.locks = true → m.holder = some (i, found)) :
    ∃ duty' ph', Inv total (acts ++ [(i, a)]) (m.complete i found a next) duty' ph' := by
  have hkeeps := h.keeps i
  rw [ht] at hkeeps
  cases a with
  | look =>
      obtain ⟨hd, hnext⟩ := hkeeps
      exact ⟨_, _, h.put_free ht hd (hnext _) rfl rfl rfl rfl rfl rfl⟩
  | emit b =>
      obtain ⟨hd, hnext⟩ := hkeeps
      exact ⟨_, _, h.put_free ht hd (hnext _) rfl rfl rfl rfl rfl rfl⟩
  | report e =>
      obtain ⟨hd, hnext⟩ := hkeeps
      exact ⟨_, _, h.put_free ht hd hnext rfl rfl rfl rfl rfl rfl⟩
  | leave =>
      obtain ⟨hd, hnext⟩ := hkeeps
      exact ⟨_, _, h.put_free ht hd hnext rfl rfl rfl rfl rfl rfl⟩
  | mark => exact h.mark ht
  | shut => exact h.shut ht
  | take => exact h.take ht
  | run c => exact h.run ht
  | release => exact h.release ht
  | register c => exact h.register ht (hlock rfl)

theorem Inv.enter (h : Inv total acts m duty ph) {i : ι} {a : Act κ}
    {next : a.Answer → Task κ (Except StreamEnded Unit)} (ht : m.task i = .act a next)
    (ha : a.locks = true) :
    Inv total acts { m with holder := some (i, m.stream.closed) } duty ph := by
  refine ⟨h.keeps, h.account, h.describes, h.stages, h.shutdown, h.late, ?_⟩
  rintro j found ⟨⟩
  have hkeeps := h.keeps i
  rw [ht] at hkeeps
  refine ⟨?_, fun hf => hf, fun _ _ hf => ?_⟩
  · cases a with
    | register c => rw [hkeeps.1]; rfl
    | take => rw [hkeeps.1]; rfl
    | _ => cases ha
  · rw [h.describes.closed] at hf
    cases ph with
    | before => rfl
    | _ => cases hf

theorem Inv.turn (h : Inv total acts m duty ph) (limit : Option Nat)
    (flushFailure : Option IoError) :
    Inv total acts { m with stream := m.stream.turn limit flushFailure } duty ph := by
  obtain ⟨hc, harmed, hsignals, hcallbacks⟩ := h.describes
  exact ⟨h.keeps, h.account, ⟨hc, harmed, hsignals, hcallbacks⟩,
    h.stages, h.shutdown, h.late, h.lock⟩

theorem Inv.move (h : Inv total acts m duty ph) (p : Pick ι) :
    ∃ duty' ph', Inv total (acts ++ m.completes p) (m.move p) duty' ph' := by
  cases p with
  | turn limit flushFailure =>
      rw [completes, List.append_nil]
      exact ⟨_, _, h.turn limit flushFailure⟩
  | step i =>
      rw [completes, Mixture.move]
      obtain hstep | ⟨a, next, ht, ha, -, hstep⟩ | ⟨a, next, found, ht, hlock, hstep⟩ :=
        m.step_cases i
      · rw [hstep]
        exact ⟨_, _, (List.append_nil acts).symm ▸ h⟩
      · rw [hstep]
        exact ⟨_, _, (List.append_nil acts).symm ▸ h.enter ht ha⟩
      · rw [hstep]
        exact h.exists_complete ht hlock

/-- In whichever order the operations take their steps, all duties are done. -/
theorem Inv.after (h : Inv total acts m duty ph) (ps : List (Pick ι)) :
    ∃ duty' ph', Inv total (acts ++ m.trace ps) (m.after ps) duty' ph' := by
  induction ps generalizing m acts duty ph with
  | nil =>
      rw [trace, List.append_nil]
      exact ⟨_, _, h⟩
  | cons p ps ih =>
      obtain ⟨duty', ph', h'⟩ := h.move p
      rw [trace, ← List.append_assoc]
      exact ih h'

theorem inv_start {s : EventStream κ} {cs : List κ} (h : s.IsOpen cs) (ops : ι → Op κ) :
    Inv ((cs : Multiset κ) + ∑ i, ((ops i).callbacks : Multiset κ)) [] (start s ops)
      (fun i => (ops i).duty) .before := by
  refine ⟨fun i => (ops i).keeps_task s.id, ?_, ⟨h.closed, h.armed, h.signals, nofun⟩, rfl,
    fun i => (ops i).ofShutdown?_duty, fun i c hd => ?_, nofun⟩
  · simp only [start, h.ran, h.callbacks, Op.owes_duty, Multiset.coe_nil, zero_add]
  · exact absurd hd ((ops i).duty_ne_late c)

theorem Inv.closed_of_run (h : Inv total acts m duty ph) {i : ι} {c : κ}
    {next : Unit → Task κ (Except StreamEnded Unit)} (ht : m.task i = .act (.run c) next) :
    m.stream.closed = true := by
  have hkeeps := h.keeps i
  rw [ht] at hkeeps
  obtain ⟨cs, hd, -⟩ | ⟨hd, -⟩ := hkeeps
  · have hshutdown := h.shutdown i
    rw [hd] at hshutdown
    cases Phase.eq_running_of_duty? hshutdown.symm
    exact h.describes.closed
  · exact h.late i c hd

/-- When everybody has returned from a stream that is closed, nothing is left to do. -/
theorem Inv.over_of_done (h : Inv total acts m duty ph) (hdone : ∀ i, ∃ r, m.task i = .done r)
    (hclosed : m.stream.closed = true) :
    (m.stream.ran : Multiset κ) = total ∧ m.stream.callbacks = [] ∧ m.stream.signals = 1 := by
  have hfree : ∀ i, duty i = .free := by
    intro i
    obtain ⟨r, hr⟩ := hdone i
    have hkeeps := h.keeps i
    rw [hr] at hkeeps
    exact hkeeps
  have hnone : ∀ i, ph.duty? i = none := fun i => by
    rw [← h.shutdown i, hfree i]
    rfl
  obtain ⟨hc, -, hsignals, hcallbacks⟩ := h.describes
  have hcount := h.account
  cases ph with
  | before =>
      rw [hclosed] at hc
      cases hc
  | finished i =>
      have hcs := hcallbacks rfl
      simp only [hfree, Duty.owes, Finset.sum_const_zero, hcs, Multiset.coe_nil, add_zero] at hcount
      exact ⟨hcount, hcs, hsignals⟩
  | shutting i =>
      have := hnone i
      rw [Phase.duty?_shutting, if_pos rfl] at this
      cases this
  | taking i =>
      have := hnone i
      rw [Phase.duty?_taking, if_pos rfl] at this
      cases this
  | running i cs =>
      have := hnone i
      rw [Phase.duty?_running, if_pos rfl] at this
      cases this

/-!
### Nobody waits forever
-/

/-- Who has the lock can go on, and releases it. -/
theorem Inv.exists_after_unlocked (h : Inv total acts m duty ph) :
    ∃ ps, (m.after ps).holder = none := by
  cases hholder : m.holder with
  | none => exact ⟨[], hholder⟩
  | some e =>
      obtain ⟨i, found⟩ := e
      obtain ⟨hlocks, -⟩ := h.lock i found hholder
      have hkeeps := h.keeps i
      cases ht : m.task i with
      | done r =>
          rw [ht] at hkeeps
          rw [show duty i = .free from hkeeps] at hlocks
          cases hlocks
      | act a next =>
          rw [ht] at hkeeps
          refine ⟨[.step i], ?_⟩
          simp [Mixture.after, Mixture.move, step, ht, hkeeps.locks hlocks, hholder, complete]

omit [Fintype ι] in
theorem exists_after_done_of_mem (hh : m.holder = none) (is : Finset ι) :
    ∃ ps, (m.after ps).holder = none ∧ ∀ i ∈ is, ∃ r, (m.after ps).task i = .done r := by
  induction is using Finset.induction with
  | empty => exact ⟨[], hh, by simp⟩
  | insert i is _ ih =>
      obtain ⟨ps, hfree, hdone⟩ := ih
      obtain ⟨qs, hqs⟩ := exists_after_eq_run (m := m.after ps) (i := i) rfl hfree
      refine ⟨ps ++ qs, ?_⟩
      rw [after_append, hqs]
      refine ⟨rfl, fun j hj => ?_⟩
      by_cases hji : j = i
      · subst hji
        exact ⟨_, Function.update_self _ _ _⟩
      · obtain ⟨r, hr⟩ := hdone j (Finset.mem_of_mem_insert_of_ne hj hji)
        exact ⟨r, (Function.update_of_ne hji _ _).trans hr⟩

/-- Wherever the operations stand, they can all return. -/
theorem exists_after_done {s : EventStream κ} {cs : List κ} (h : s.IsOpen cs) (ops : ι → Op κ)
    (ps : List (Pick ι)) :
    ∃ qs, ∀ i, ∃ r, ((start s ops).after (ps ++ qs)).task i = .done r := by
  obtain ⟨duty, ph, hinv⟩ := (inv_start h ops).after ps
  obtain ⟨qs, hqs⟩ := hinv.exists_after_unlocked
  obtain ⟨qs', -, hdone⟩ := exists_after_done_of_mem hqs Finset.univ
  refine ⟨qs ++ qs', fun i => ?_⟩
  rw [after_append, after_append]
  exact hdone i (Finset.mem_univ i)

end Mixture

theorem Phase.stages_prefix (ph : Phase ι κ) :
    (∀ e ∈ ph.stages, ∀ e' ∈ ph.stages, e.1 = e'.1) ∧
      ph.stages.map Prod.snd <+: [.shut, .take, .release] := by
  cases ph <;> simp [Phase.stages]

end HttpDispatch.EventStream
