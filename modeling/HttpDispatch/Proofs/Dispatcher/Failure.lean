import HttpDispatch.Proofs.Dispatcher.Unwritten
import HttpDispatch.Proofs.Program.Failure

/-!
# Response streams that fail in a dispatch

When a response stream fails, the callback that wrote to it is told, and nobody else: the response
is not marked as cut short. The dispatcher marks it when a callback fails after the head has been
sent, and in the end when it is given a response that it cannot send any more. So a callback that
keeps the failure to itself and returns a streamed response has what was delivered until then count
as all of it.

`Dispatcher.Breaks` follows the stages of a dispatch and says that a response stream fails in one of
the callbacks. From then on the head has been sent, and the mark tells exactly whether a callback
has failed since (`Passage.Broken`); every stage keeps that (`Passage.Follows`).
-/

namespace HttpDispatch

variable {σ α : Type}

theorem Run.lives_of_bare_eq {r r' : Run σ} (h : r.bare = r'.bare)
    (ht : r'.context.truncated = r.context.truncated) : r.Lives r' := by
  have hstream : r.stream = r'.stream := (congrArg Run.stream h :)
  exact (advances_of_bare_eq h fun h => ht.trans h).lives ht fun hs => hstream ▸ hs

/-- An entry that has the response cut short: a failure after the head had been sent. -/
def Step.CutsShort (s : Step σ) : Prop := s.headersSent = true ∧ ∃ e, s.course = .failed e

theorem Course.continued_ne_failed (e : DispatchError) : continued ≠ .failed e := nofun

theorem Course.halted_ne_failed (e : DispatchError) : halted ≠ .failed e := nofun

namespace Passage

/-- A callback has failed after the head had been sent. -/
def Marked (p : Passage σ) : Prop := ∃ s ∈ p.journal, s.CutsShort

/-- A callback has ended, and its failure, if it has failed, is still to be dealt with. -/
structure Stopped (p : Passage σ) : Prop where
  live : p.run.Live
  stream : p.run.stream = none
  marked : p.Marked → p.headersSent = true

/-- Between two callbacks whatever has failed has been dealt with. -/
structure Settled (p : Passage σ) : Prop extends p.Stopped where
  told : p.Marked → p.run.context.truncated = true

/-- The head has been sent, and the response counts as cut short only if a callback has failed
since. -/
def Broken (p : Passage σ) : Prop :=
  p.headersSent = true ∧ (p.run.context.truncated = true → p.Marked)

/-- The head has been sent, and a callback has failed since. -/
def Lost (p : Passage σ) : Prop := p.headersSent = true ∧ p.Marked

structure Notes (p q : Passage σ) : Prop where
  journal : q.journal = p.journal
  bare : p.run.bare = q.run.bare
  truncated : q.run.context.truncated = p.run.context.truncated

variable {p q q' : Passage σ} {A B : Prop}

theorem Notes.marked (h : p.Notes q) : q.Marked ↔ p.Marked := by
  unfold Marked
  rw [h.journal]

theorem Notes.headersSent (h : p.Notes q) : q.headersSent = p.headersSent :=
  (congrArg (fun r => r.context.exchange.headersSent) h.bare.symm :)

theorem Notes.stopped (h : p.Notes q) (hp : p.Stopped) : q.Stopped := by
  refine ⟨(Run.lives_of_bare_eq h.bare h.truncated hp.live).1, ?_, ?_⟩
  · exact (congrArg Run.stream h.bare.symm :).trans hp.stream
  · rw [h.marked, h.headersSent]
    exact hp.marked

theorem Notes.settled (h : p.Notes q) (hp : p.Settled) : q.Settled := by
  refine ⟨h.stopped hp.toStopped, ?_⟩
  rw [h.marked, h.truncated]
  exact hp.told

theorem Notes.broken (h : p.Notes q) (hp : p.Broken) : q.Broken := by
  unfold Broken
  rw [h.headersSent, h.truncated, h.marked]
  exact hp

theorem Notes.lost (h : p.Notes q) (hp : p.Lost) : q.Lost := by
  unfold Lost
  rw [h.headersSent, h.marked]
  exact hp

theorem Stopped.settled (h : p.Stopped) (hs : p.headersSent = false) : p.Settled :=
  ⟨h, fun hm => absurd (h.marked hm) (Bool.eq_false_iff.1 hs)⟩

/-- A failure after the head has been sent is dealt with by marking the response. -/
theorem settled_truncate (h : p.Stopped) (hs : p.headersSent = true) : p.truncate.Settled := by
  refine ⟨⟨⟨?_, h.live.closed, fun _ => hs, ?_⟩, h.stream, h.marked⟩, fun _ => rfl⟩
  · exact ⟨h.live.stream, h.live.events⟩
  · intro hstream
    rw [show p.truncate.run.stream = none from h.stream] at hstream
    cases hstream

theorem Lost.truncate (h : p.Lost) : p.truncate.Broken := ⟨h.1, fun _ => h.2⟩

/-- A failure is dealt with by marking the response if the head has been sent, and else by another
response. -/
theorem Stopped.settled_ite (h : p.Stopped) (r r' : Response) :
    (if p.headersSent then (r, p.truncate) else (r', p)).2.Settled ∧
      (p.Lost → (if p.headersSent then (r, p.truncate) else (r', p)).2.Broken) := by
  cases hs : p.headersSent with
  | true => exact ⟨settled_truncate h hs, Lost.truncate⟩
  | false => exact ⟨h.settled hs, fun hlost => absurd hlost.1 (Bool.eq_false_iff.1 hs)⟩

/-- The passage goes on from one callback to another. If a response stream has failed before or
fails on the way, it stays told whether a callback has failed since. -/
def Follows (p : Passage σ) (breaks : Prop) (q : Passage σ) : Prop :=
  p.Settled → q.Settled ∧ (p.Broken ∨ breaks → q.Broken)

theorem Follows.refl (p : Passage σ) : p.Follows False p :=
  fun h => ⟨h, fun hb => hb.resolve_right not_false⟩

theorem Follows.trans (h : p.Follows A q) (h' : q.Follows B q') : p.Follows (A ∨ B) q' := by
  intro hp
  obtain ⟨hq, hbroken⟩ := h hp
  obtain ⟨hq', hbroken'⟩ := h' hq
  refine ⟨hq', ?_⟩
  rintro (hb | hb | hb)
  · exact hbroken' (.inl (hbroken (.inl hb)))
  · exact hbroken' (.inl (hbroken (.inr hb)))
  · exact hbroken' (.inr hb)

theorem Follows.mono (h : p.Follows B q) (hab : A → B) : p.Follows A q :=
  fun hp => ⟨(h hp).1, fun hb => (h hp).2 (hb.imp_right hab)⟩

theorem Notes.follows (h : p.Notes q) : p.Follows False q :=
  fun hp => ⟨h.settled hp, fun hb => h.broken (hb.resolve_right not_false)⟩

theorem Follows.noted {p' : Passage σ} (h : p.Notes p') (hf : p'.Follows A q) : p.Follows A q :=
  (h.follows.trans hf).mono .inr

theorem Follows.notes (hf : p.Follows A q) (h : q.Notes q') : p.Follows A q' :=
  (hf.trans h.follows).mono .inl

theorem notes_enter (p : Passage σ) (phase : Phase) : p.Notes (p.enter phase) := ⟨rfl, rfl, rfl⟩

theorem notes_report (p : Passage σ) (e : LogEvent) : p.Notes (p.report e) := ⟨rfl, rfl, rfl⟩

theorem notes_fail (p : Passage σ) (e : DispatchError) : p.Notes (p.fail e) := ⟨rfl, rfl, rfl⟩

structure Invoked (p : Passage σ) (breaks : Prop) (q : Passage σ) : Prop where
  live : q.run.Live
  stream : q.run.stream = none
  sent : p.headersSent = true →
    q.headersSent = true ∧ q.run.context.truncated = p.run.context.truncated
  breaks : breaks → q.run.Unmarked

theorem invoked_invoke (hp : p.Settled) {c : Callback σ} {course : α → Course}
    {program : Program σ α} {result : Except DispatchError α}
    (hi : p.invoke c course program = (result, q)) :
    p.Invoked (program.Breaks p.handler p.run) q ∧
      q.journal = p.journal ++ [⟨c, courseOf course result, q.headersSent⟩] := by
  obtain ⟨hlive, hsent⟩ := Program.lives_run p.handler program p.run hp.live
  have hstream : (program.run p.handler p.run).2.stream = none := Run.stream_settle _ _
  have hbreaks : program.Breaks p.handler p.run → (program.run p.handler p.run).2.Unmarked :=
    Program.unmarked_run hp.live
  unfold invoke at hi
  generalize program.run p.handler p.run = ended at hi hlive hsent hstream hbreaks
  obtain ⟨a | e | reason, r⟩ := ended
  · cases hi
    exact ⟨⟨hlive, hstream, hsent, hbreaks⟩, rfl⟩
  · cases hi
    exact ⟨⟨hlive, hstream, hsent, hbreaks⟩, rfl⟩
  · cases hi
    have hreported :
        r.Lives (r.withContext (·.report (.panicked p.id p.run.context.phase.name reason))) :=
      Run.lives_of_bare_eq rfl rfl
    exact ⟨⟨(hreported hlive).1, hstream, hsent, hbreaks⟩, rfl⟩

theorem Invoked.of_marked (h : p.Invoked A q) (hp : p.Settled) (hm : p.Marked) :
    q.headersSent = true ∧ q.run.context.truncated = true := by
  obtain ⟨hs, ht⟩ := h.sent (hp.marked hm)
  exact ⟨hs, ht.trans (hp.told hm)⟩

/-- If a response stream has failed before or in the callback, the head has been sent, and only what
was marked before counts as cut short. -/
theorem Invoked.of_broken (h : p.Invoked A q) (hb : p.Broken ∨ A) :
    q.headersSent = true ∧ (q.run.context.truncated = true → p.Marked) := by
  obtain hb | hb := hb
  · obtain ⟨hs, ht⟩ := h.sent hb.1
    exact ⟨hs, fun h => hb.2 (ht ▸ h)⟩
  · obtain ⟨hs, ht⟩ := h.breaks hb
    refine ⟨hs, fun h => ?_⟩
    rw [ht] at h
    cases h

theorem follows_invoke {c : Callback σ} {course : α → Course} {program : Program σ α} {a : α}
    (hi : p.invoke c course program = (.ok a, q)) (hc : ∀ e, course a ≠ .failed e) :
    p.Follows (program.Breaks p.handler p.run) q := by
  intro hp
  obtain ⟨hinvoked, hjournal⟩ := invoked_invoke hp hi
  have hmarked : q.Marked ↔ p.Marked := by
    unfold Marked
    rw [hjournal]
    constructor
    · rintro ⟨s, hs, hsent, e, he⟩
      rcases List.mem_append.1 hs with hs | hs
      · exact ⟨s, hs, hsent, e, he⟩
      · rw [List.mem_singleton.1 hs] at he
        exact absurd he (hc e)
    · rintro ⟨s, hs, hcut⟩
      exact ⟨s, List.mem_append_left _ hs, hcut⟩
  refine ⟨⟨⟨hinvoked.live, hinvoked.stream, fun hm => ?_⟩, fun hm => ?_⟩, fun hb => ?_⟩
  · exact (hinvoked.of_marked hp (hmarked.1 hm)).1
  · exact (hinvoked.of_marked hp (hmarked.1 hm)).2
  · obtain ⟨hs, ht⟩ := hinvoked.of_broken hb
    exact ⟨hs, fun h => hmarked.2 (ht h)⟩

theorem stopped_invoke (hp : p.Settled) {c : Callback σ} {course : α → Course}
    {program : Program σ α} {e : DispatchError} (hi : p.invoke c course program = (.error e, q)) :
    q.Stopped ∧ (p.Broken ∨ program.Breaks p.handler p.run → q.Lost) := by
  obtain ⟨hinvoked, hjournal⟩ := invoked_invoke hp hi
  refine ⟨⟨hinvoked.live, hinvoked.stream, ?_⟩, fun hb => ?_⟩
  · rintro ⟨s, hs, hcut⟩
    rw [hjournal] at hs
    rcases List.mem_append.1 hs with hs | hs
    · exact (hinvoked.of_marked hp ⟨s, hs, hcut⟩).1
    · rw [List.mem_singleton.1 hs] at hcut
      exact hcut.1
  · have hs := (hinvoked.of_broken hb).1
    refine ⟨hs, ⟨c, .failed e, q.headersSent⟩, ?_, hs, e, rfl⟩
    rw [hjournal]
    exact List.mem_append_right _ (List.mem_singleton_self _)

end Passage

namespace Dispatcher

open Passage

/-- A response stream fails while a failure is mapped. -/
def handleErrorBreaks (d : Dispatcher σ) (e : DispatchError) (p : Passage σ) : Prop :=
  p.headersSent = false ∧ ∃ c h, d.errorHandlers.find? e.category = some (c, h) ∧
    (h e).Breaks p.handler ((p.enter .error).report (.invokingHandler p.id e.category c)).run

def runBeforeBreaks (d : Dispatcher σ) : List (FilterEntry (BeforeFilter σ)) → Passage σ → Prop
  | [], _ => False
  | f :: fs, p =>
    f.filter.Breaks p.handler p.run ∨
      match p.invoke (.before f.filter) Verdict.course f.filter with
      | (.ok .proceed, p) => d.runBeforeBreaks fs p
      | (.ok (.halt _), _) => False
      | (.error e, p) => d.handleErrorBreaks e (p.fail e)

def checkAccessBreaks (d : Dispatcher σ) (roles : List String) (p : Passage σ) : Prop :=
  ∃ allow, d.access = some allow ∧ (allow roles).Breaks p.handler p.run

def runHandlerBreaks (d : Dispatcher σ) (roles : List String) (h : Handler σ)
    (p : Passage σ) : Prop :=
  d.checkAccessBreaks roles (p.enter .handler) ∨
    match d.checkAccess roles (p.enter .handler) with
    | (.error e, p) => d.handleErrorBreaks e (p.fail e)
    | (.ok (), p) =>
      h.Breaks p.handler p.run ∨
        match p.invoke (.handler h) (fun _ => .continued) h with
        | (.error e, p) => d.handleErrorBreaks e (p.fail e)
        | (.ok _, _) => False

def runAfterBreaks (d : Dispatcher σ) :
    List (FilterEntry (AfterFilter σ)) → Response → Passage σ → Prop
  | [], _, _ => False
  | f :: fs, r, p =>
    (f.filter r).Breaks p.handler p.run ∨
      match p.invoke (.after f.filter) (fun _ => .continued) (f.filter r) with
      | (.ok r, p) => d.runAfterBreaks fs r p
      | (.error e, p) =>
        let p := (p.report (.afterFilterFailed p.id e.category)).fail e
        d.handleErrorBreaks e p ∨
          d.runAfterBreaks fs (d.handleError e p).1 ((d.handleError e p).2.enter .afterFilters)

def runRouteBreaks (d : Dispatcher σ) (entry : RouteEntry (Handler σ)) (p : Passage σ) : Prop :=
  let path := p.run.context.exchange.request.path
  d.runBeforeBreaks (d.routes.beforeFor path) (p.enter .beforeFilters) ∨
    match d.runBefore (d.routes.beforeFor path) (p.enter .beforeFilters) with
    | (some r, p) => d.runAfterBreaks (d.routes.afterFor path) r (p.enter .afterFilters)
    | (none, p) =>
      d.runHandlerBreaks entry.roles entry.handler p ∨
        d.runAfterBreaks (d.routes.afterFor path) (d.runHandler entry.roles entry.handler p).1
          ((d.runHandler entry.roles entry.handler p).2.enter .afterFilters)

theorem settled_handleError (d : Dispatcher σ) (e : DispatchError) {p : Passage σ}
    (hp : p.Stopped) : (d.handleError e p).2.Settled ∧
      (p.Lost ∨ d.handleErrorBreaks e p → (d.handleError e p).2.Broken) := by
  cases hs : p.headersSent with
  | true =>
      rw [d.handleError_of_headersSent e hs]
      generalize hq : (p.enter .error).report _ = q
      have hnotes : p.Notes q := hq ▸ ⟨rfl, rfl, rfl⟩
      have hsent : q.headersSent = true := hnotes.headersSent.trans hs
      refine ⟨settled_truncate (hnotes.stopped hp) hsent, ?_⟩
      rintro (hlost | ⟨hs', -⟩)
      · exact (hnotes.lost hlost).truncate
      · rw [hs] at hs'
        cases hs'
  | false =>
      have hlost : ¬ p.Lost := fun h => absurd h.1 (Bool.eq_false_iff.1 hs)
      have hsent : (p.enter .error).headersSent = false := hs
      unfold handleError handleErrorBreaks
      simp only [hsent, Bool.false_eq_true, if_false]
      cases hf : d.errorHandlers.find? e.category with
      | none =>
          refine ⟨Notes.settled (p := p) ⟨rfl, rfl, rfl⟩ (hp.settled hs), ?_⟩
          rintro (h | ⟨-, c, h, ⟨⟩, -⟩)
          exact absurd h hlost
      | some found =>
          obtain ⟨c, h⟩ := found
          simp only
          generalize hq : (p.enter .error).report _ = q
          have hnotes : p.Notes q := hq ▸ ⟨rfl, rfl, rfl⟩
          have hhandler : q.handler = p.handler := hq ▸ rfl
          have hsettled := hnotes.settled (hp.settled hs)
          have hbreaks : (p.Lost ∨ p.headersSent = false ∧ ∃ c' h', some (c, h) = some (c', h') ∧
              (h' e).Breaks p.handler
                ((p.enter .error).report (.invokingHandler p.id e.category c')).run) →
              q.Broken ∨ (h e).Breaks q.handler q.run := by
            rintro (hl | ⟨-, c', h', ⟨⟩, hb⟩)
            · exact absurd hl hlost
            · rw [← hq]
              exact .inr hb
          rcases hi : q.invoke (.errorHandler c e) (fun _ => .continued) (h e) with ⟨e' | r, q₁⟩
          · obtain ⟨hstopped, hlost₁⟩ := stopped_invoke hsettled hi
            have hnotes₁ := notes_report q₁ (.handlerFailed q₁.id e e')
            obtain ⟨hsettled₁, hbroken₁⟩ :=
              (hnotes₁.stopped hstopped).settled_ite .streamed (.internalError _)
            exact ⟨hsettled₁, fun hb => hbroken₁ (hnotes₁.lost (hlost₁ (hbreaks hb)))⟩
          · obtain ⟨hsettled₁, hbroken₁⟩ := follows_invoke hi Course.continued_ne_failed hsettled
            exact ⟨hsettled₁, fun hb => hbroken₁ (hbreaks hb)⟩

theorem follows_mapped (d : Dispatcher σ) {p q q' : Passage σ} {c : Callback σ}
    {course : α → Course} {program : Program σ α} {e : DispatchError}
    (hi : p.invoke c course program = (.error e, q))
    (hnotes : q.Notes q') :
    p.Follows (program.Breaks p.handler p.run ∨ d.handleErrorBreaks e q')
      (d.handleError e q').2 := by
  intro hp
  obtain ⟨hstopped, hlost⟩ := stopped_invoke hp hi
  obtain ⟨hsettled, hbroken⟩ := d.settled_handleError e (hnotes.stopped hstopped)
  refine ⟨hsettled, fun hb => hbroken ?_⟩
  rw [← or_assoc] at hb
  exact hb.imp_left fun hb => hnotes.lost (hlost hb)

theorem follows_runBefore (d : Dispatcher σ) (fs : List (FilterEntry (BeforeFilter σ)))
    (p : Passage σ) : p.Follows (d.runBeforeBreaks fs p) (d.runBefore fs p).2 := by
  induction fs generalizing p with
  | nil => exact .refl p
  | cons f fs ih =>
      rw [runBefore, runBeforeBreaks]
      rcases hi : p.invoke (.before f.filter) Verdict.course f.filter with
        ⟨e | verdict | response, q⟩
      · exact d.follows_mapped hi (notes_fail q e)
      · exact (follows_invoke hi Course.continued_ne_failed).trans (ih q)
      · exact (follows_invoke hi Course.halted_ne_failed).trans (notes_report q _).follows

theorem follows_checkAccess (d : Dispatcher σ) {roles : List String} {p q : Passage σ}
    (h : d.checkAccess roles p = (.ok (), q)) : p.Follows (d.checkAccessBreaks roles p) q := by
  unfold checkAccess at h
  unfold checkAccessBreaks
  cases ha : d.access with
  | none =>
      rw [ha] at h
      cases h
      refine (Follows.refl p).mono ?_
      rintro ⟨allow, ⟨⟩, -⟩
  | some allow =>
      rw [ha] at h
      refine (follows_invoke h Course.continued_ne_failed).mono ?_
      rintro ⟨allow, ⟨⟩, hb⟩
      exact hb

theorem follows_refused (d : Dispatcher σ) {roles : List String} {p q : Passage σ}
    {e : DispatchError} (h : d.checkAccess roles p = (.error e, q)) :
    p.Follows (d.checkAccessBreaks roles p ∨ d.handleErrorBreaks e (q.fail e))
      (d.handleError e (q.fail e)).2 := by
  unfold checkAccess at h
  unfold checkAccessBreaks
  cases ha : d.access with
  | none =>
      rw [ha] at h
      cases h
  | some allow =>
      rw [ha] at h
      refine (d.follows_mapped h (notes_fail q e)).mono (Or.imp_left ?_)
      rintro ⟨allow, ⟨⟩, hb⟩
      exact hb

theorem follows_runHandler (d : Dispatcher σ) (roles : List String) (h : Handler σ)
    (p : Passage σ) : p.Follows (d.runHandlerBreaks roles h p) (d.runHandler roles h p).2 := by
  refine .noted (notes_enter p .handler) ?_
  unfold runHandler runHandlerBreaks
  simp only
  generalize p.enter .handler = p
  rcases ha : d.checkAccess roles p with ⟨e | ⟨⟩, q⟩
  · exact d.follows_refused ha
  · refine (d.follows_checkAccess ha).trans ?_
    rcases hi : q.invoke (.handler h) (fun _ => .continued) h with ⟨e | response, q'⟩
    · simp only [hi]
      exact d.follows_mapped hi (notes_fail q' e)
    · simp only [hi]
      exact (follows_invoke hi Course.continued_ne_failed).mono fun hb => hb.resolve_right not_false

theorem follows_runAfter (d : Dispatcher σ) (fs : List (FilterEntry (AfterFilter σ)))
    (response : Response) (p : Passage σ) :
    p.Follows (d.runAfterBreaks fs response p) (d.runAfter fs response p).2 := by
  induction fs generalizing response p with
  | nil => exact .refl p
  | cons f fs ih =>
      rw [runAfter, runAfterBreaks]
      rcases hi : p.invoke (.after f.filter) (fun _ => .continued) (f.filter response) with
        ⟨e | r, q⟩
      · have hnotes : q.Notes ((q.report (.afterFilterFailed q.id e.category)).fail e) :=
          ⟨rfl, rfl, rfl⟩
        have hmapped := d.follows_mapped hi hnotes
        refine ((hmapped.notes (notes_enter _ .afterFilters)).trans (ih _ _)).mono ?_
        rw [or_assoc]
        exact id
      · exact (follows_invoke hi Course.continued_ne_failed).trans (ih r q)

theorem follows_runRoute (d : Dispatcher σ) (entry : RouteEntry (Handler σ)) (p : Passage σ) :
    p.Follows (d.runRouteBreaks entry p) (d.runRoute entry p).2 := by
  refine .noted (notes_enter p .beforeFilters) ?_
  unfold runRoute runRouteBreaks
  simp only
  generalize p.run.context.exchange.request.path = path
  generalize p.enter .beforeFilters = p
  have hbefore := d.follows_runBefore (d.routes.beforeFor path) p
  generalize d.runBefore (d.routes.beforeFor path) p = filtered at hbefore ⊢
  obtain ⟨_ | response, q⟩ := filtered
  · have hhandler := d.follows_runHandler entry.roles entry.handler q
    exact hbefore.trans ((hhandler.notes (notes_enter _ .afterFilters)).trans
      (d.follows_runAfter _ _ _))
  · exact (hbefore.notes (notes_enter q .afterFilters)).trans (d.follows_runAfter _ _ _)

def received (d : Dispatcher σ) (s : Surroundings σ) (x : Exchange) : Passage σ :=
  let p := d.arrive s x
  let p := p.report (.dispatchStarted p.id x.request.method x.request.path)
  p.onContext (·.onExchange
    (·.reportAll (d.routes.routingReport x.request.method x.request.path)))

/-- The response that a dispatch comes to, and the passage on which it is sent. -/
def respond (d : Dispatcher σ) (s : Surroundings σ) (x : Exchange) : Response × Passage σ :=
  match d.routes.route? x.request.method x.request.path with
  | none => d.handleError (.http .notFound) ((d.received s x).fail (.http .notFound))
  | some entry => d.runRoute entry (d.routed s x entry)

theorem dispatch_eq_finish (d : Dispatcher σ) (s : Surroundings σ) (x : Exchange) :
    d.dispatch s x = finish (d.respond s x).1 (d.respond s x).2 := by
  unfold respond
  cases hr : d.routes.route? x.request.method x.request.path with
  | none =>
      unfold dispatch
      simp only
      rw [hr]
      rfl
  | some entry => exact dispatch_of_route hr

/-- In the dispatch of a request a response stream fails on the way to the client. -/
def Breaks (d : Dispatcher σ) (s : Surroundings σ) (x : Exchange) : Prop :=
  match d.routes.route? x.request.method x.request.path with
  | none => d.handleErrorBreaks (.http .notFound) ((d.received s x).fail (.http .notFound))
  | some entry => d.runRouteBreaks entry (d.routed s x entry)

theorem settled_arrive (d : Dispatcher σ) (s : Surroundings σ) {x : Exchange}
    (hx : x.closed = false) : (d.arrive s x).Settled := by
  refine ⟨⟨⟨d.sound_arrive s x, hx, nofun, nofun⟩, rfl, ?_⟩, ?_⟩
  · rintro ⟨step, ⟨⟩, -⟩
  · rintro ⟨step, ⟨⟩, -⟩

theorem settled_respond (d : Dispatcher σ) (s : Surroundings σ) {x : Exchange}
    (hx : x.closed = false) :
    (d.respond s x).2.Settled ∧ (d.Breaks s x → (d.respond s x).2.Broken) := by
  have harrive := d.settled_arrive s hx
  unfold respond Breaks
  cases d.routes.route? x.request.method x.request.path with
  | none =>
      have hnotes : (d.arrive s x).Notes ((d.received s x).fail (.http .notFound)) :=
        ⟨rfl, rfl, rfl⟩
      obtain ⟨hsettled, hbroken⟩ :=
        d.settled_handleError (.http .notFound) (hnotes.stopped harrive.toStopped)
      exact ⟨hsettled, fun hb => hbroken (.inr hb)⟩
  | some entry =>
      have hnotes : (d.arrive s x).Notes (d.routed s x entry) := ⟨rfl, rfl, rfl⟩
      obtain ⟨hsettled, hbroken⟩ := d.follows_runRoute entry _ (hnotes.settled harrive)
      exact ⟨hsettled, fun hb => hbroken (.inr hb)⟩

theorem isOk_commit_of_headersSent {c : Context} (h : c.exchange.headersSent = true)
    (r : Response) : (c.commit r).1.isOk = r.isStreamed := by
  have hbuffered : ∀ status fields body mediaType,
      (c.commitBuffered status fields body mediaType).1.isOk = false := by
    intro status fields body mediaType
    rw [Context.commitBuffered, Context.setStatus_of_headersSent h]
    rfl
  unfold Context.commit Response.isStreamed
  cases hb : r.body with
  | empty => exact hbuffered _ _ _ _
  | bytes b => exact hbuffered _ _ _ _
  | text s => exact hbuffered _ _ _ _
  | json v =>
      simp only [Body.payload?]
      cases c.codec.encode v with
      | error e => rfl
      | ok b => exact hbuffered _ _ _ _
  | streamed =>
      simp only [Body.payload?]
      rw [Context.commitStreamed, if_pos h]
      rfl

/-- Sending a response after the head has been sent marks it, unless it is a streamed one. -/
theorem send_of_headersSent {c : Context} (h : c.exchange.headersSent = true) (r : Response) :
    (send r c).2.exchange.closed = c.exchange.closed ∧
      ((send r c).2.truncated = true ↔ c.truncated = true ∨ r.isStreamed = false) := by
  have hcommit := commit_of_headersSent h r
  have hok := isOk_commit_of_headersSent h r
  unfold send
  generalize c.commit r = attempt at hcommit hok ⊢
  obtain ⟨e | ⟨⟩, c₁⟩ := attempt
  · cases hcommit
    simp only
    rw [if_pos h]
    exact ⟨rfl, iff_of_true rfl (.inr hok.symm)⟩
  · cases hcommit
    rw [← hok]
    exact ⟨rfl, (or_iff_left nofun).symm⟩

/-- Sending a response after the head has been sent. An exchange is released if its response was cut
short. -/
theorem finish_of_headersSent {p : Passage σ} (h : p.headersSent = true)
    (hc : p.run.context.exchange.closed = false) (r : Response) :
    ((finish r p).outcome.truncated = true ↔ p.run.context.truncated = true ∨
      r.isStreamed = false) ∧
      (finish r p).run.context.exchange.closed = (finish r p).outcome.truncated := by
  obtain ⟨hclosed, hcut⟩ := send_of_headersSent h r
  unfold finish
  generalize send r p.run.context = result at hclosed hcut ⊢
  obtain ⟨status, c⟩ := result
  rw [← hcut]
  cases ht : c.truncated with
  | true =>
      simp only [ht, Bool.or_true, if_true]
      have ht' : c.close.truncated = true := c.truncated_close.trans ht
      exact ⟨iff_of_true ht' trivial, c.released_close.closed.trans ht'.symm⟩
  | false =>
      simp only [ht, Bool.or_false]
      exact ⟨iff_of_false (fun h => Bool.eq_false_iff.1 ht h) nofun,
        (hclosed.trans hc).trans ht.symm⟩

/-- When a response stream fails on the way to the client, the response counts as cut short, and the
exchange is released, if and only if a callback fails after the head has been sent, or the response
that the dispatch comes to is not a streamed one. A failure that every callback keeps to itself
leaves no trace. -/
theorem truncated_dispatch_of_breaks {d : Dispatcher σ} {s : Surroundings σ} {x : Exchange}
    (hx : x.closed = false) (h : d.Breaks s x) :
    ((d.dispatch s x).outcome.truncated = true ↔
        (∃ step ∈ (d.dispatch s x).journal, step.CutsShort) ∨
        (d.respond s x).1.isStreamed = false) ∧
      (d.dispatch s x).run.context.exchange.closed = (d.dispatch s x).outcome.truncated := by
  obtain ⟨hsettled, hbroken⟩ := d.settled_respond s hx
  obtain ⟨hsent, hcut⟩ := hbroken h
  rw [d.dispatch_eq_finish s x]
  generalize d.respond s x = responded at hsettled hsent hcut ⊢
  obtain ⟨response, p⟩ := responded
  obtain ⟨htruncated, hclosed⟩ := finish_of_headersSent hsent hsettled.live.closed response
  refine ⟨htruncated.trans ?_, hclosed⟩
  have hmarked : p.run.context.truncated = true ↔ p.Marked := ⟨hcut, hsettled.told⟩
  rw [hmarked]
  rfl

theorem AtHandler.breaks {d : Dispatcher σ} {s : Surroundings σ} {x : Exchange}
    {entry : RouteEntry (Handler σ)} {p : Passage σ} (h : AtHandler d s x entry p)
    (hb : entry.handler.Breaks p.handler p.run) : d.Breaks s x := by
  obtain ⟨q, hbefore, haccess⟩ := h.passed
  have hpath : (d.routed s x entry).run.context.exchange.request.path = x.request.path := rfl
  unfold Breaks
  rw [h.route]
  unfold runRouteBreaks runHandlerBreaks
  simp only
  rw [hpath, hbefore]
  simp only
  rw [haccess]
  exact .inr (.inl (.inr (.inl hb)))

/-- A handler that does not care whether its five bytes arrive. -/
def careless : Handler Unit :=
  .call .openStream fun _ =>
    .call (.streamWriteAll [104, 101, 108, 108, 111]) fun _ => .done .streamed

/-- A request whose client goes away after three bytes of the body. -/
def askingBriefly : Exchange := { asking with out := { limit := some 3 } }

theorem breaks_careless :
    (serving careless).Breaks { app := (), freshId := ⟨0⟩ } askingBriefly := by
  refine (atHandler_serving careless rfl rfl).breaks (.inl (.inr (.inl ⟨_, rfl, rfl, ?_⟩)))
  have hfailed : (((servingPassage careless askingBriefly).run.perform .openStream).2.perform
      (.streamWriteAll [104, 101, 108, 108, 111])).2.stream.map ResponseStream.failed =
        some true := by
    decide +kernel
  obtain ⟨s, hs, hf⟩ := Option.map_eq_some_iff.1 hfailed
  rw [hs]
  exact hf

/-- Three bytes of five arrive, and that counts as a whole response. -/
theorem truncated_dispatch_of_breaks_careless :
    let y := (serving careless).dispatch { app := (), freshId := ⟨0⟩ } askingBriefly
    (serving careless).Breaks { app := (), freshId := ⟨0⟩ } askingBriefly ∧
      y.outcome.truncated = false ∧ y.run.context.exchange.closed = false ∧
      y.run.context.exchange.out.written = [104, 101, 108] := by
  intro y
  have htruncated : y.outcome.truncated = false := by decide +kernel
  obtain ⟨-, hclosed⟩ := truncated_dispatch_of_breaks rfl breaks_careless
  exact ⟨breaks_careless, htruncated, hclosed.trans htruncated, by decide +kernel⟩

end Dispatcher

end HttpDispatch
