import HttpDispatch.Dispatcher.Dispatch
import HttpDispatch.Proofs.Program.Moves
import Mathlib.Data.List.Basic

/-!
# The journal of a dispatch

Which callbacks a dispatch runs, and in what order. The journal is compared with a rule that is said
on lists: `Main` fixes the filters, the check and the handler, `Answered` puts the one call of an
error handler directly after each failure that needs it, and `Prescribed` joins the two for a whole
dispatch.

A journal is only worth something if it is kept honestly. `Tells` is the chain of states that goes
with one: every entry is a real run of its callback on the state that the entry before it left, and
between two entries only the dispatcher's own notes change (`Run.bare`). So a callback that is not
in the journal cannot have touched anything.
-/

namespace HttpDispatch

variable {σ α : Type}

def Ending.course (course : α → Course) : Ending α → Course
  | .ok a => course a
  | .failed e => .failed e
  | .panicked reason => .failed (.panic reason)

/-- The state without the dispatcher's own notes: the phase, the mark of a response that was cut
short, the route and the report. -/
def Run.bare (r : Run σ) : Run σ :=
  { r with context := { r.context with
      phase := .routing, truncated := false, route := none,
      exchange := { r.context.exchange with log := [] } } }

/-- The dispatcher's own notes do not disturb a run, as long as none of them takes back that the
response was cut short. -/
theorem Run.advances_of_bare_eq {r r' : Run σ} (h : r.bare = r'.bare)
    (ht : r.context.truncated = true → r'.context.truncated = true) : r.Advances r' := by
  have hc := congrArg Run.context h
  have hx := congrArg Context.exchange hc
  have hlog : { r.context.exchange with log := r'.context.exchange.log } = r'.context.exchange :=
    congrArg (fun x : Exchange => { x with log := r'.context.exchange.log }) hx
  have hm : r.context.exchange.Moves r'.context.exchange := by
    rw [← hlog]
    exact .single (.inside _ _ _ _ _)
  have hs : r'.context.exchange.headersSent = r.context.exchange.headersSent :=
    (congrArg Exchange.headersSent hx.symm :)
  have hstream : r.stream = r'.stream := (congrArg Run.stream h :)
  have hevents : r.events = r'.events := (congrArg Run.events h :)
  intro hsound
  refine ⟨⟨hm, ht, (congrArg Context.id hc.symm :), (congrArg Context.settings hc.symm :),
    (congrArg Context.codec hc.symm :), (congrArg Context.coder hc.symm :)⟩, ?_, ?_⟩
  · rw [← hstream]
    exact fun s hs' => (hsound.stream s hs').congr hs hm.isHead_eq
  · rw [← hevents]
    exact fun e he => (hsound.events e he).of_advances (.refl _) hm

namespace Journal

/-- A callback that is run on `r` ends as `course`, and leaves `r'` behind. An after filter is given
some response; an error handler is the one that the dispatcher has for the category. -/
inductive Ran (d : Dispatcher σ) (route : Option (Handler σ)) :
    Callback σ → Run σ → Course → Run σ → Prop
  | before (f : BeforeFilter σ) (r : Run σ) :
    Ran d route (.before f) r ((f.run route r).1.course Verdict.course) (f.run route r).2
  | access (allow : AccessManager σ) (roles : List String) (r : Run σ) (h : d.access = some allow) :
    Ran d route (.access roles) r (((allow roles).run route r).1.course fun _ => .continued)
      ((allow roles).run route r).2
  | handler (h : Handler σ) (r : Run σ) :
    Ran d route (.handler h) r ((h.run route r).1.course fun _ => .continued) (h.run route r).2
  | after (f : AfterFilter σ) (response : Response) (r : Run σ) :
    Ran d route (.after f) r (((f response).run route r).1.course fun _ => .continued)
      ((f response).run route r).2
  | errorHandler (c : Category) (e : DispatchError) (h : ErrorHandler σ) (r : Run σ)
    (hc : d.errorHandlers.find? e.category = some (c, h)) :
    Ran d route (.errorHandler c e) r (((h e).run route r).1.course fun _ => .continued)
      ((h e).run route r).2

/-- The entries lead from `r` to `r'`: each is a run of its callback on the state at which the one
before it ended, up to the dispatcher's own notes. -/
inductive Tells (d : Dispatcher σ) (route : Option (Handler σ)) :
    Run σ → List (Step σ) → Run σ → Prop
  | nil {r r' : Run σ} (h : r.bare = r'.bare) : Tells d route r [] r'
  | cons {r r₁ r₂ r' : Run σ} {s : Step σ} {steps : List (Step σ)} (h : r.bare = r₁.bare)
    (ran : Ran d route s.callback r₁ s.course r₂)
    (sent : s.headersSent = r₂.context.exchange.headersSent) (rest : Tells d route r₂ steps r') :
    Tells d route r (s :: steps) r'

/-- What follows a failure: one call of the error handler for its category. Nothing follows if there
is no such handler, or if the head had been sent. -/
def Mapped (d : Dispatcher σ) (e : DispatchError) (sent : Bool) (steps : List (Step σ)) : Prop :=
  match sent, d.errorHandlers.find? e.category with
  | false, some (c, _) => ∃ s : Step σ, steps = [s] ∧ s.callback = .errorHandler c e
  | _, _ => steps = []

def Reply (d : Dispatcher σ) (s : Step σ) (steps : List (Step σ)) : Prop :=
  match s.course with
  | .failed e => Mapped d e s.headersSent steps
  | _ => steps = []

/-- The second list is the first with the reply to each entry put in directly after it. -/
inductive Answered (d : Dispatcher σ) : List (Step σ) → List (Step σ) → Prop
  | nil : Answered d [] []
  | cons {s : Step σ} {reply main steps : List (Step σ)} (h : Reply d s reply)
    (rest : Answered d main steps) : Answered d (s :: main) (s :: (reply ++ steps))

def AllContinued (steps : List (Step σ)) : Prop := ∀ s ∈ steps, s.course = .continued

/-- The entries are the filters in order, up to and including the first after which the request did
not go on; all of them, if there is none. -/
def UpToStop (filters : List (FilterEntry (BeforeFilter σ))) (steps : List (Step σ)) : Prop :=
  steps.map (·.callback) = (filters.map fun f => .before f.filter).take steps.length ∧
    AllContinued steps.dropLast ∧ (AllContinued steps → steps.length = filters.length)

/-- The entries are the check of the route's roles, if anybody is asked, and then the handler of the
route, if the check was passed. -/
def Served (d : Dispatcher σ) (entry : RouteEntry (Handler σ)) (steps : List (Step σ)) : Prop :=
  match d.access with
  | none => ∃ h : Step σ, steps = [h] ∧ h.callback = .handler entry.handler
  | some _ => ∃ a : Step σ, a.callback = .access entry.roles ∧
      (a.course = .continued →
        ∃ h : Step σ, steps = [a, h] ∧ h.callback = .handler entry.handler) ∧
      (a.course ≠ .continued → steps = [a])

/-- The filters before the handler, the check and the handler if all of them let the request go on,
and all filters after the handler. -/
def Main (d : Dispatcher σ) (entry : RouteEntry (Handler σ)) (path : String)
    (main : List (Step σ)) : Prop :=
  ∃ before served after : List (Step σ), main = before ++ served ++ after ∧
    UpToStop (d.routes.beforeFor path) before ∧
    (AllContinued before → Served d entry served) ∧ (¬ AllContinued before → served = []) ∧
    after.map (·.callback) = (d.routes.afterFor path).map fun f => .after f.filter

/-- The callbacks that a dispatch of `x` has to run. -/
def Prescribed (d : Dispatcher σ) (x : Exchange) (steps : List (Step σ)) : Prop :=
  match d.routes.route? x.request.method x.request.path with
  | none => Mapped d (.http .notFound) x.headersSent steps
  | some entry => ∃ main : List (Step σ), Main d entry x.request.path main ∧ Answered d main steps

theorem Tells.of_bare_eq {d : Dispatcher σ} {route : Option (Handler σ)} {r r₁ r' : Run σ}
    {steps : List (Step σ)} (h : r.bare = r₁.bare) (ht : Tells d route r₁ steps r') :
    Tells d route r steps r' := by
  cases ht with
  | nil h' => exact .nil (h.trans h')
  | cons h' ran sent rest => exact .cons (h.trans h') ran sent rest

/-- Two journals, the second kept from where the first one ends, are one. -/
theorem Tells.append {d : Dispatcher σ} {route : Option (Handler σ)} {r r₁ r' : Run σ}
    {steps more : List (Step σ)} (h : Tells d route r steps r₁) (h' : Tells d route r₁ more r') :
    Tells d route r (steps ++ more) r' := by
  induction h with
  | nil h => exact h'.of_bare_eq h
  | cons h ran sent _ ih => exact .cons h ran sent (ih h')

theorem Answered.append {d : Dispatcher σ} {main steps main' steps' : List (Step σ)}
    (h : Answered d main steps) (h' : Answered d main' steps') :
    Answered d (main ++ main') (steps ++ steps') := by
  induction h with
  | nil => exact h'
  | @cons s reply main steps h _ ih =>
      rw [List.cons_append, List.cons_append, List.append_assoc]
      exact .cons h ih

theorem Answered.cons_of_forall_ne {d : Dispatcher σ} {s : Step σ} {main steps : List (Step σ)}
    (h : Answered d main steps) (hs : ∀ e, s.course ≠ .failed e) :
    Answered d (s :: main) (s :: steps) := by
  have hreply : Reply d s [] := by
    unfold Reply
    split
    · next e he => exact absurd he (hs e)
    · rfl
  exact .cons hreply h

theorem Answered.cons_of_failed {d : Dispatcher σ} {s : Step σ} {reply main steps : List (Step σ)}
    {e : DispatchError} (h : Answered d main steps) (hs : s.course = .failed e)
    (hm : Mapped d e s.headersSent reply) : Answered d (s :: main) (s :: (reply ++ steps)) := by
  have hreply : Reply d s reply := by
    unfold Reply
    rw [hs]
    exact hm
  exact .cons hreply h

theorem answered_singleton {d : Dispatcher σ} {s : Step σ} {reply : List (Step σ)}
    {e : DispatchError} (hs : s.course = .failed e) (hm : Mapped d e s.headersSent reply) :
    Answered d [s] (s :: reply) := by
  have h := Answered.nil.cons_of_failed hs hm
  rwa [List.append_nil] at h

theorem allContinued_nil : AllContinued ([] : List (Step σ)) := by
  intro s hs
  cases hs

theorem allContinued_cons {s : Step σ} {steps : List (Step σ)} :
    AllContinued (s :: steps) ↔ s.course = .continued ∧ AllContinued steps :=
  List.forall_mem_cons

theorem upToStop_nil : UpToStop ([] : List (FilterEntry (BeforeFilter σ))) [] :=
  ⟨rfl, allContinued_nil, fun _ => rfl⟩

theorem UpToStop.cons {f : FilterEntry (BeforeFilter σ)} {fs : List (FilterEntry (BeforeFilter σ))}
    {s : Step σ} {steps : List (Step σ)} (hs : s.callback = .before f.filter)
    (hc : s.course = .continued) (h : UpToStop fs steps) : UpToStop (f :: fs) (s :: steps) := by
  obtain ⟨hcall, hlast, hall⟩ := h
  refine ⟨?_, ?_, ?_⟩
  · rw [List.map_cons, hcall, List.map_cons, List.length_cons, List.take_succ_cons, hs]
  · cases steps with
    | nil => exact allContinued_nil
    | cons t steps =>
        rw [List.dropLast_cons_cons]
        exact allContinued_cons.2 ⟨hc, hlast⟩
  · intro h
    rw [List.length_cons, List.length_cons, hall (allContinued_cons.1 h).2]

theorem upToStop_singleton {f : FilterEntry (BeforeFilter σ)}
    {fs : List (FilterEntry (BeforeFilter σ))} {s : Step σ} (hs : s.callback = .before f.filter)
    (hc : s.course ≠ .continued) : UpToStop (f :: fs) [s] := by
  refine ⟨?_, allContinued_nil, ?_⟩
  · rw [List.map_singleton, hs]
    rfl
  · intro h
    exact absurd (allContinued_cons.1 h).1 hc

end Journal

/-!
# Passages and their journals

Each stage of a dispatch adds entries to the journal of its passage, and the entries tell what the
stage has done to the state, which is no more than programs may do. `Passage.Leads` is that
relation; stages are put together by `Passage.Leads.trans`.
-/

namespace Passage

open Journal

structure Leads (d : Dispatcher σ) (p : Passage σ) (steps : List (Step σ)) (q : Passage σ) :
    Prop where
  journal : q.journal = p.journal ++ steps
  handler : q.handler = p.handler
  tells : Tells d p.handler p.run steps q.run
  advances : p.run.Advances q.run

theorem Leads.trans {d : Dispatcher σ} {p q r : Passage σ} {steps more : List (Step σ)}
    (h : Leads d p steps q) (h' : Leads d q more r) : Leads d p (steps ++ more) r where
  journal := by rw [h'.journal, h.journal, List.append_assoc]
  handler := h'.handler.trans h.handler
  tells := h.tells.append (h.handler ▸ h'.tells)
  advances := h.advances.trans h'.advances

theorem leads_nil (d : Dispatcher σ) {p q : Passage σ} (hj : q.journal = p.journal)
    (hh : q.handler = p.handler) (hr : p.run.bare = q.run.bare)
    (ht : p.run.context.truncated = true → q.run.context.truncated = true) : Leads d p [] q where
  journal := by rw [hj, List.append_nil]
  handler := hh
  tells := .nil hr
  advances := Run.advances_of_bare_eq hr ht

theorem Leads.refl (d : Dispatcher σ) (p : Passage σ) : p.Leads d [] p :=
  leads_nil d rfl rfl rfl fun ht => ht

theorem leads_enter (d : Dispatcher σ) (p : Passage σ) (phase : Phase) :
    p.Leads d [] (p.enter phase) :=
  leads_nil d rfl rfl rfl fun ht => ht

theorem leads_report (d : Dispatcher σ) (p : Passage σ) (e : LogEvent) :
    p.Leads d [] (p.report e) :=
  leads_nil d rfl rfl rfl fun ht => ht

theorem leads_truncate (d : Dispatcher σ) (p : Passage σ) : p.Leads d [] p.truncate :=
  leads_nil d rfl rfl rfl fun _ => rfl

theorem leads_fail (d : Dispatcher σ) (p : Passage σ) (e : DispatchError) :
    p.Leads d [] (p.fail e) :=
  leads_nil d rfl rfl rfl fun ht => ht

def courseOf (course : α → Course) : Except DispatchError α → Course
  | .ok a => course a
  | .error e => .failed e

theorem leads_invoke {d : Dispatcher σ} {p q : Passage σ} {c : Callback σ} {course : α → Course}
    {program : Program σ α} {result : Except DispatchError α}
    (hran : ∀ r, Ran d p.handler c r ((program.run p.handler r).1.course course)
      (program.run p.handler r).2)
    (h : p.invoke c course program = (result, q)) :
    p.Leads d [⟨c, courseOf course result, q.headersSent⟩] q := by
  have hr := hran p.run
  have ha := Program.advances_run p.handler program p.run
  unfold invoke at h
  rcases hrun : program.run p.handler p.run with ⟨a | e | reason, r⟩ <;> rw [hrun] at h hr ha <;>
    cases h
  · exact ⟨rfl, rfl, .cons rfl hr rfl (.nil rfl), ha⟩
  · exact ⟨rfl, rfl, .cons rfl hr rfl (.nil rfl), ha⟩
  · exact ⟨rfl, rfl, .cons rfl hr rfl (.nil rfl),
      ha.trans (Run.advances_withContext (Context.moves_report _ _) rfl)⟩

end Passage

namespace Dispatcher

open Journal Passage

/-- Mapping a failure runs what the rule asks for, and nothing else. -/
theorem leads_handleError (d : Dispatcher σ) (e : DispatchError) (p : Passage σ) :
    ∃ steps, Mapped d e p.headersSent steps ∧ p.Leads d steps (d.handleError e p).2 := by
  have hsent : (p.enter .error).headersSent = p.headersSent := rfl
  unfold handleError
  simp only [hsent]
  cases hs : p.headersSent with
  | true => exact ⟨[], rfl, leads_nil d rfl rfl rfl fun _ => rfl⟩
  | false =>
      cases hf : d.errorHandlers.find? e.category with
      | none =>
          refine ⟨[], ?_, leads_nil d rfl rfl rfl fun ht => ht⟩
          simp only [Mapped, hf]
      | some found =>
          obtain ⟨c, h⟩ := found
          simp only [Bool.false_eq_true, if_false]
          generalize hp : (p.enter .error).report _ = p₁
          have h₁ : p.Leads d [] p₁ := hp ▸ leads_nil d rfl rfl rfl fun ht => ht
          rcases hi : p₁.invoke (.errorHandler c e) (fun _ => .continued) (h e) with ⟨result, q⟩
          have h₂ := h₁.trans (leads_invoke (fun r => .errorHandler c e h r hf) hi)
          refine ⟨[⟨.errorHandler c e, courseOf (fun _ => .continued) result, q.headersSent⟩],
            ?_, ?_⟩
          · simp only [Mapped, hf]
            exact ⟨_, rfl, rfl⟩
          · cases result with
            | ok r => exact h₂
            | error failure =>
                have h₃ : q.Leads d [] (q.report (.handlerFailed q.id e failure)) :=
                  leads_report d q _
                have h₄ := h₂.trans h₃
                simp only
                split
                · exact h₄.trans (leads_truncate d _)
                · exact h₄

theorem leads_failure (d : Dispatcher σ) (e : DispatchError) (p : Passage σ) :
    ∃ steps, Mapped d e p.headersSent steps ∧ p.Leads d steps (d.handleError e (p.fail e)).2 := by
  obtain ⟨steps, hmapped, h⟩ := d.leads_handleError e (p.fail e)
  exact ⟨steps, hmapped, (leads_fail d p e).trans h⟩

/-- A callback that was to give a response is answered if it gave an error. -/
theorem leads_reply (d : Dispatcher σ) (c : Callback σ) (result : Except DispatchError Response)
    (p : Passage σ) :
    ∃ reply, Answered d [⟨c, courseOf (fun _ => .continued) result, p.headersSent⟩]
        (⟨c, courseOf (fun _ => .continued) result, p.headersSent⟩ :: reply) ∧
      p.Leads d reply
        (match (result, p) with
          | (.error e, p) => d.handleError e (p.fail e)
          | (.ok r, p) => (r, p)).2 := by
  cases result with
  | error e =>
      obtain ⟨reply, hmapped, h⟩ := d.leads_failure e p
      exact ⟨reply, answered_singleton rfl hmapped, h⟩
  | ok r =>
      refine ⟨[], Answered.nil.cons_of_forall_ne ?_, .refl d p⟩
      intro e h
      cases h

/-- The filters before the handler run up to the first that stops the request. -/
theorem leads_runBefore (d : Dispatcher σ) (fs : List (FilterEntry (BeforeFilter σ)))
    (p : Passage σ) :
    ∃ main steps, UpToStop fs main ∧ Answered d main steps ∧
      ((d.runBefore fs p).1 = none ↔ AllContinued main) ∧
      p.Leads d steps (d.runBefore fs p).2 := by
  induction fs generalizing p with
  | nil =>
      exact ⟨[], [], upToStop_nil, .nil, ⟨fun _ => allContinued_nil, fun _ => rfl⟩,
        .refl d p⟩
  | cons f fs ih =>
      rw [runBefore]
      rcases hi : p.invoke (.before f.filter) Verdict.course f.filter with ⟨result, q⟩
      have h₁ := leads_invoke (d := d) (fun r => .before f.filter r) hi
      rcases result with e | verdict | response
      · obtain ⟨reply, hmapped, h₂⟩ := d.leads_failure e q
        refine ⟨[⟨.before f.filter, .failed e, q.headersSent⟩], _, upToStop_singleton rfl ?_,
          answered_singleton rfl hmapped, ?_, h₁.trans h₂⟩
        · intro h
          cases h
        · constructor
          · intro h
            cases h
          · intro h
            cases (allContinued_cons.1 h).1
      · obtain ⟨main, steps, hstop, hanswered, hnone, h₂⟩ := ih q
        refine ⟨⟨.before f.filter, .continued, q.headersSent⟩ :: main, _, hstop.cons rfl rfl,
          hanswered.cons_of_forall_ne ?_, ?_, h₁.trans h₂⟩
        · intro e h
          cases h
        · rw [allContinued_cons, hnone]
          exact ⟨fun h => ⟨rfl, h⟩, fun h => h.2⟩
      · refine ⟨[⟨.before f.filter, .halted, q.headersSent⟩], _, upToStop_singleton rfl ?_,
          Answered.nil.cons_of_forall_ne ?_, ?_, h₁.trans (leads_report d q _)⟩
        · intro h
          cases h
        · intro e h
          cases h
        · constructor
          · intro h
            cases h
          · intro h
            cases (allContinued_cons.1 h).1

/-- The handler of the route runs only after the check, if there is one, was passed. -/
theorem leads_runHandler (d : Dispatcher σ) (entry : RouteEntry (Handler σ)) (p : Passage σ) :
    ∃ main steps, Served d entry main ∧ Answered d main steps ∧
      p.Leads d steps (d.runHandler entry.roles entry.handler p).2 := by
  have henter := leads_enter d p .handler
  unfold runHandler checkAccess
  cases ha : d.access with
  | none =>
      rcases hi : (p.enter .handler).invoke (.handler entry.handler) (fun _ => .continued)
        entry.handler with ⟨result, q⟩
      have h₁ := henter.trans (leads_invoke (d := d) (fun r => .handler entry.handler r) hi)
      obtain ⟨reply, hanswered, h₂⟩ := d.leads_reply (.handler entry.handler) result q
      simp only [hi]
      refine ⟨_, _, ?_, hanswered, h₁.trans h₂⟩
      simp only [Served, ha]
      exact ⟨_, rfl, rfl⟩
  | some allow =>
      simp only
      rcases hi : (p.enter .handler).invoke (.access entry.roles) (fun _ => .continued)
        (allow entry.roles) with ⟨result, q⟩
      have h₁ := henter.trans (leads_invoke (fun r => .access allow entry.roles r ha) hi)
      rcases result with e | ⟨⟩
      · obtain ⟨reply, hmapped, h₂⟩ := d.leads_failure e q
        refine ⟨_, _, ?_, answered_singleton rfl hmapped, h₁.trans h₂⟩
        simp only [Served, ha]
        refine ⟨_, rfl, ?_, fun _ => rfl⟩
        intro h
        cases h
      · rcases hi' : q.invoke (.handler entry.handler) (fun _ => .continued) entry.handler with
          ⟨result, q'⟩
        have h₂ := h₁.trans (leads_invoke (d := d) (fun r => .handler entry.handler r) hi')
        obtain ⟨reply, hanswered, h₃⟩ := d.leads_reply (.handler entry.handler) result q'
        simp only [hi']
        refine ⟨⟨.access entry.roles, .continued, q.headersSent⟩ :: _, _, ?_,
          hanswered.cons_of_forall_ne ?_, h₂.trans h₃⟩
        · simp only [Served, ha]
          exact ⟨_, rfl, fun _ => ⟨_, rfl, rfl⟩, fun hne => absurd rfl hne⟩
        · intro e h
          cases h

/-- Every filter after the handler runs, whatever became of those before it. -/
theorem leads_runAfter (d : Dispatcher σ) (fs : List (FilterEntry (AfterFilter σ)))
    (response : Response) (p : Passage σ) :
    ∃ main steps, main.map (·.callback) = (fs.map fun f => .after f.filter) ∧
      Answered d main steps ∧ p.Leads d steps (d.runAfter fs response p).2 := by
  induction fs generalizing response p with
  | nil => exact ⟨[], [], rfl, .nil, .refl d p⟩
  | cons f fs ih =>
      rw [runAfter]
      rcases hi : p.invoke (.after f.filter) (fun _ => .continued) (f.filter response) with
        ⟨result, q⟩
      have h₁ := leads_invoke (d := d) (fun r => .after f.filter response r) hi
      rcases result with e | response'
      · simp only
        generalize hq : (q.report _).fail e = q₁
        have h₂ : q.Leads d [] q₁ := hq ▸ leads_nil d rfl rfl rfl fun ht => ht
        have hsent : q₁.headersSent = q.headersSent := hq ▸ rfl
        obtain ⟨reply, hmapped, h₃⟩ := d.leads_handleError e q₁
        rw [hsent] at hmapped
        generalize d.handleError e q₁ = mapped at h₃ ⊢
        obtain ⟨response', q₂⟩ := mapped
        obtain ⟨main, steps, hcall, hanswered, h₄⟩ := ih response' (q₂.enter .afterFilters)
        have h₅ := leads_enter d q₂ .afterFilters
        refine ⟨⟨.after f.filter, .failed e, q.headersSent⟩ :: main, _, ?_,
          hanswered.cons_of_failed rfl hmapped, h₁.trans ((h₂.trans h₃).trans (h₅.trans h₄))⟩
        rw [List.map_cons, List.map_cons, hcall]
      · obtain ⟨main, steps, hcall, hanswered, h₂⟩ := ih response' q
        refine ⟨⟨.after f.filter, .continued, q.headersSent⟩ :: main, _, ?_,
          hanswered.cons_of_forall_ne ?_, h₁.trans h₂⟩
        · rw [List.map_cons, List.map_cons, hcall]
        · intro e h
          cases h

/-- A request that has a route passes through the filters before the handler, the check, the handler
and the filters after it. -/
theorem leads_runRoute (d : Dispatcher σ) (entry : RouteEntry (Handler σ)) (p : Passage σ) :
    ∃ main steps, Main d entry p.run.context.exchange.request.path main ∧ Answered d main steps ∧
      p.Leads d steps (d.runRoute entry p).2 := by
  have henter := leads_enter d p .beforeFilters
  unfold runRoute
  simp only
  generalize p.run.context.exchange.request.path = path
  obtain ⟨before, steps, hstop, hbefore, hnone, h₁⟩ :=
    d.leads_runBefore (d.routes.beforeFor path) (p.enter .beforeFilters)
  generalize d.runBefore (d.routes.beforeFor path) (p.enter .beforeFilters) = filtered at hnone h₁ ⊢
  rcases filtered with ⟨_ | response, q⟩
  · obtain ⟨served, steps', hserved, hanswered, h₂⟩ := d.leads_runHandler entry q
    simp only
    generalize d.runHandler entry.roles entry.handler q = handled at h₂ ⊢
    obtain ⟨response, q'⟩ := handled
    have hafter := leads_enter d q' .afterFilters
    obtain ⟨after, steps'', hcall, hanswered', h₃⟩ :=
      d.leads_runAfter (d.routes.afterFor path) response (q'.enter .afterFilters)
    refine ⟨_, _, ⟨before, served, after, rfl, hstop, fun _ => hserved, ?_, hcall⟩,
      (hbefore.append hanswered).append hanswered',
      henter.trans ((h₁.trans h₂).trans (hafter.trans h₃))⟩
    intro h
    exact absurd (hnone.1 rfl) h
  · have hafter := leads_enter d q .afterFilters
    obtain ⟨after, steps', hcall, hanswered', h₂⟩ :=
      d.leads_runAfter (d.routes.afterFor path) response (q.enter .afterFilters)
    refine ⟨_, _, ⟨before, [], after, rfl, hstop, ?_, fun _ => rfl, hcall⟩,
      (hbefore.append .nil).append hanswered', ?_⟩
    · intro h
      cases hnone.2 h
    · rw [List.append_nil]
      exact henter.trans (h₁.trans (hafter.trans h₂))

/-- The end of a dispatch runs no callback: it makes no entry, and leaves everything but the request
as it is. -/
theorem journal_finish (response : Response) (p : Passage σ) :
    (finish response p).journal = p.journal ∧
      (finish response p).run = { p.run with context := (finish response p).run.context } :=
  ⟨rfl, rfl⟩

def routed (d : Dispatcher σ) (s : Surroundings σ) (x : Exchange) (entry : RouteEntry (Handler σ)) :
    Passage σ :=
  let p := d.arrive s x
  let p := p.report (.dispatchStarted p.id x.request.method x.request.path)
  let p := p.onContext (·.onExchange
    (·.reportAll (d.routes.routingReport x.request.method x.request.path)))
  { p with handler := some entry.handler }.onContext fun c => { c with route := some entry.matched }

theorem leads_routed (d : Dispatcher σ) (s : Surroundings σ) (x : Exchange)
    (entry : RouteEntry (Handler σ)) :
    Leads d { d.arrive s x with handler := some entry.handler } [] (d.routed s x entry) :=
  leads_nil d rfl rfl rfl fun ht => ht

theorem dispatch_of_route {d : Dispatcher σ} {s : Surroundings σ} {x : Exchange}
    {entry : RouteEntry (Handler σ)}
    (h : d.routes.route? x.request.method x.request.path = some entry) :
    d.dispatch s x =
      finish (d.runRoute entry (d.routed s x entry)).1
        (d.runRoute entry (d.routed s x entry)).2 := by
  unfold dispatch
  simp only
  rw [h]
  rfl

/-- A dispatch leads from the arrival of the request, through the callbacks that the rule
prescribes, to a response; then that is sent. -/
theorem leads_dispatch (d : Dispatcher σ) (s : Surroundings σ) (x : Exchange) :
    ∃ (response : Response) (p : Passage σ) (steps : List (Step σ)),
      d.dispatch s x = finish response p ∧ Prescribed d x steps ∧
      Leads d { d.arrive s x with
        handler := (d.routes.route? x.request.method x.request.path).map (·.handler) } steps p := by
  unfold Prescribed
  cases hr : d.routes.route? x.request.method x.request.path with
  | none =>
      unfold dispatch
      simp only
      rw [hr]
      generalize hp : Passage.onContext _ _ = p
      have h₁ : (d.arrive s x).Leads d [] p := hp ▸ leads_nil d rfl rfl rfl fun ht => ht
      have hsent : p.headersSent = x.headersSent := hp ▸ rfl
      obtain ⟨steps, hmapped, h₂⟩ := d.leads_failure (.http .notFound) p
      rw [hsent] at hmapped
      exact ⟨_, _, steps, rfl, hmapped, h₁.trans h₂⟩
  | some entry =>
      obtain ⟨main, steps, hmain, hanswered, h⟩ := d.leads_runRoute entry (d.routed s x entry)
      exact ⟨_, _, steps, dispatch_of_route hr, ⟨main, hmain, hanswered⟩,
        (d.leads_routed s x entry).trans h⟩

/-- A dispatch runs the callbacks that the rule prescribes, in that order and no others. The entries
are kept honestly: they tell what has happened to everything that callbacks share. -/
theorem prescribed_journal (d : Dispatcher σ) (s : Surroundings σ) (x : Exchange) :
    Prescribed d x (d.dispatch s x).journal ∧
      ∃ r : Run σ,
        Tells d ((d.routes.route? x.request.method x.request.path).map (·.handler))
          (d.arrive s x).run (d.dispatch s x).journal r ∧
        (d.dispatch s x).run = { r with context := (d.dispatch s x).run.context } := by
  obtain ⟨response, p, steps, hd, hprescribed, hleads⟩ := d.leads_dispatch s x
  have hjournal : p.journal = steps := hleads.journal
  rw [hd, (journal_finish response p).1, hjournal]
  exact ⟨hprescribed, p.run, hleads.tells, rfl⟩

end Dispatcher

end HttpDispatch
