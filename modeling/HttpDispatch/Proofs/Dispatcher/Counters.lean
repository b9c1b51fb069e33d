import HttpDispatch.Proofs.Dispatcher.Paired

/-!
# The counters after requests that follow each other

The middleware that counts is registered once, for all paths, and other filters may come before it.
The hook before handlers is not run for a request that one of those has stopped; the hook after
handlers is run for every request that has a route. What the counters show after any number of
requests is `Series.counters_after`.

Whatever is run between the two hooks, and before and after them, counts nothing and leaves the
request at its route (`Passage.Uncounted`).
-/

namespace HttpDispatch

variable {σ α : Type}

/-!
## Where nothing is counted
-/

namespace Passage

/-- From one to the other nothing has been counted, and the request is still at its route. -/
structure Uncounted (p q : Passage σ) : Prop where
  metrics : p.run.metrics.GrowsTo q.run.metrics
  route : q.run.route = p.run.route
  handler : q.handler = p.handler

variable {p q r : Passage σ}

theorem Uncounted.refl (p : Passage σ) : p.Uncounted p := ⟨.refl _, rfl, rfl⟩

theorem Uncounted.trans (h : p.Uncounted q) (h' : q.Uncounted r) : p.Uncounted r :=
  ⟨h.metrics.trans h'.metrics, h'.route.trans h.route, h'.handler.trans h.handler⟩

def Quiet (p : Passage σ) : Prop := ∀ h ∈ p.handler, h.Makes Call.LeavesCounters

theorem Uncounted.quiet (h : p.Uncounted q) (hp : p.Quiet) : q.Quiet := by
  rw [Quiet, h.handler]
  exact hp

theorem uncounted_enter (p : Passage σ) (phase : Phase) : p.Uncounted (p.enter phase) :=
  ⟨.refl _, rfl, rfl⟩

theorem uncounted_report (p : Passage σ) (e : LogEvent) : p.Uncounted (p.report e) :=
  ⟨.refl _, rfl, rfl⟩

theorem uncounted_truncate (p : Passage σ) : p.Uncounted p.truncate := ⟨.refl _, rfl, rfl⟩

theorem uncounted_fail (p : Passage σ) (e : DispatchError) : p.Uncounted (p.fail e) :=
  ⟨.refl _, rfl, rfl⟩

theorem uncounted_invoke (hp : p.Quiet) {c : Callback σ} {course : α → Course}
    {program : Program σ α} (hprogram : program.Makes Call.LeavesCounters)
    {result : Except DispatchError α}
    (hi : p.invoke c course program = (result, q)) : p.Uncounted q := by
  have hmetrics := Program.growsTo_run hp hprogram p.run
  have hroute := Program.route_run p.handler program p.run
  unfold invoke at hi
  generalize program.run p.handler p.run = ended at hi hmetrics hroute
  obtain ⟨a | e | reason, run⟩ := ended
  · cases hi
    exact ⟨hmetrics, hroute, rfl⟩
  · cases hi
    exact ⟨hmetrics, hroute, rfl⟩
  · cases hi
    exact ⟨hmetrics, hroute, rfl⟩

/-- The request is at a route, whose handler changes no counter, and the counters show what
`Metrics.Tallies` says. -/
structure Shows (p : Passage σ) (matched : MatchedRoute) (inFlight passed : ℕ)
    (reached : List String) :
    Prop where
  quiet : p.Quiet
  route : p.run.route = some matched
  tallies : p.run.metrics.Tallies inFlight passed reached

theorem Shows.of_uncounted {matched : MatchedRoute} {inFlight passed : ℕ} {reached : List String}
    (h : p.Shows matched inFlight passed reached) (hq : p.Uncounted q) :
    q.Shows matched inFlight passed reached :=
  ⟨hq.quiet h.quiet, hq.route.trans h.route, h.tallies.growsTo hq.metrics⟩

end Passage

def Registration.Makes (kind : Call σ → Prop) : RoutesRegistration σ → Prop
  | .route _ _ _ h => h.Makes kind
  | .before _ f => f.Makes kind
  | .after _ f => ∀ r, (f r).Makes kind
  | .around _ b a => b.Makes kind ∧ ∀ r, (a r).Makes kind

namespace Registration

variable {rs : List (RoutesRegistration σ)} {kind : Call σ → Prop}

theorem makes_of_mem_beforeFor (h : ∀ r ∈ rs, r.Makes kind) (path : String) :
    ∀ f ∈ beforeFor rs path, f.filter.Makes kind := by
  intro f hf
  rw [← (filtersFor_registerValid false 0 rs path).1] at hf
  obtain ⟨raw, hr | ⟨a, hr⟩⟩ := RouteTable.exists_registration_of_mem_beforeFor hf
  · exact h _ hr
  · exact (h _ hr).1

theorem makes_of_mem_afterFor (h : ∀ r ∈ rs, r.Makes kind) (path : String) :
    ∀ f ∈ afterFor rs path, ∀ r, (f.filter r).Makes kind := by
  intro f hf
  rw [← (filtersFor_registerValid false 0 rs path).2] at hf
  obtain ⟨raw, hr | ⟨b, hr⟩⟩ := RouteTable.exists_registration_of_mem_afterFor hf
  · exact h _ hr
  · exact (h _ hr).2

end Registration

namespace Dispatcher

open Passage Registration

/-- The middleware that counts is registered once, for all paths, after some filters and before
others; nothing else changes the counters, whatever it does. -/
structure CountsBetween (d : Dispatcher σ) (earlier later : List (RoutesRegistration σ)) :
    Prop where
  routes : ∃ strict cap, d.routes = (RouteTable.empty strict cap).registerValid
    (earlier ++ .around none Middleware.counting.before Middleware.counting.afterFilter :: later)
  earlier : ∀ r ∈ earlier, r.Makes Call.LeavesCounters
  later : ∀ r ∈ later, r.Makes Call.LeavesCounters
  access : ∀ allow ∈ d.access, ∀ roles, (allow roles).Makes Call.LeavesCounters
  errorHandler : ∀ c h, (c, h) ∈ d.errorHandlers.entries → ∀ e, (h e).Makes Call.LeavesCounters

variable {d : Dispatcher σ} {earlier later : List (RoutesRegistration σ)} {p : Passage σ}

theorem CountsBetween.beforeFor_eq (hd : d.CountsBetween earlier later) (path : String) :
    d.routes.beforeFor path =
      beforeFor earlier path ++ ⟨none, Middleware.counting.before⟩ :: beforeFor later path := by
  obtain ⟨strict, cap, hroutes⟩ := hd.routes
  rw [hroutes, (filtersFor_registerValid strict cap _ path).1,
    (filtersFor_append_around _ _ _ _ path).1]

theorem CountsBetween.afterFor_eq (hd : d.CountsBetween earlier later) (path : String) :
    d.routes.afterFor path =
      afterFor earlier path ++ ⟨none, Middleware.counting.afterFilter⟩ :: afterFor later path := by
  obtain ⟨strict, cap, hroutes⟩ := hd.routes
  rw [hroutes, (filtersFor_registerValid strict cap _ path).2,
    (filtersFor_append_around _ _ _ _ path).2]

theorem CountsBetween.handler (hd : d.CountsBetween earlier later) {method : Method} {path : String}
    {entry : RouteEntry (Handler σ)} (h : d.routes.route? method path = some entry) :
    entry.handler.Makes Call.LeavesCounters := by
  obtain ⟨strict, cap, hroutes⟩ := hd.routes
  rw [hroutes] at h
  obtain ⟨v, raw, roles, hr⟩ := RouteTable.exists_registration_of_route? h
  obtain hearlier | hlater := List.mem_append.1 hr
  · exact hd.earlier _ hearlier
  · obtain heq | hmem := List.mem_cons.1 hlater
    · cases heq
    · exact hd.later _ hmem

/-!
### Stage by stage
-/

theorem uncounted_handleError (hd : d.CountsBetween earlier later) (hp : p.Quiet)
    (e : DispatchError) : p.Uncounted (d.handleError e p).2 := by
  have hentered := uncounted_enter p .error
  unfold handleError
  dsimp only
  split
  · exact hentered.trans ((uncounted_report _ _).trans (uncounted_truncate _))
  · split
    · exact hentered.trans (uncounted_report _ _)
    · next c h hfind =>
      have hreported :=
        hentered.trans (uncounted_report _ (.invokingHandler (p.enter .error).id e.category c))
      have hmakes := hd.errorHandler c h (ErrorHandlers.mem_entries_of_find? hfind) e
      split
      · next r q hi => exact hreported.trans (uncounted_invoke (hreported.quiet hp) hmakes hi)
      · next failure q hi =>
        have hinvoked := hreported.trans (uncounted_invoke (hreported.quiet hp) hmakes hi)
        split
        · exact hinvoked.trans ((uncounted_report _ _).trans (uncounted_truncate _))
        · exact hinvoked.trans (uncounted_report _ _)

theorem uncounted_failure (hd : d.CountsBetween earlier later) (hp : p.Quiet) (e : DispatchError) :
    p.Uncounted (d.handleError e (p.fail e)).2 :=
  (uncounted_fail p e).trans (uncounted_handleError hd ((uncounted_fail p e).quiet hp) e)

theorem uncounted_runBefore (hd : d.CountsBetween earlier later)
    {fs : List (FilterEntry (BeforeFilter σ))} (hfs : ∀ f ∈ fs, f.filter.Makes Call.LeavesCounters)
    (hp : p.Quiet) :
    p.Uncounted (d.runBefore fs p).2 := by
  induction fs generalizing p with
  | nil => exact .refl p
  | cons f fs ih =>
      obtain ⟨hf, hrest⟩ := List.forall_mem_cons.1 hfs
      rw [runBefore]
      rcases hi : p.invoke (.before f.filter) Verdict.course f.filter with
        ⟨e | verdict | response, q⟩
      · have hq := uncounted_invoke hp hf hi
        exact hq.trans (uncounted_failure hd (hq.quiet hp) e)
      · have hq := uncounted_invoke hp hf hi
        exact hq.trans (ih hrest (hq.quiet hp))
      · exact (uncounted_invoke hp hf hi).trans (uncounted_report q _)

theorem uncounted_checkAccess (hd : d.CountsBetween earlier later) (hp : p.Quiet)
    {roles : List String} {result : Except DispatchError Unit} {q : Passage σ}
    (h : d.checkAccess roles p = (result, q)) :
    p.Uncounted q := by
  unfold checkAccess at h
  split at h
  · cases h
    exact .refl p
  · next allow ha => exact uncounted_invoke hp (hd.access allow ha roles) h

theorem uncounted_runHandler (hd : d.CountsBetween earlier later) (hp : p.Quiet)
    (roles : List String) {h : Handler σ} (hh : h.Makes Call.LeavesCounters) :
    p.Uncounted (d.runHandler roles h p).2 := by
  have hentered := uncounted_enter p .handler
  unfold runHandler
  dsimp only
  rcases ha : d.checkAccess roles (p.enter .handler) with ⟨e | ⟨⟩, q⟩
  · have hq := hentered.trans (uncounted_checkAccess hd (hentered.quiet hp) ha)
    exact hq.trans (uncounted_failure hd (hq.quiet hp) e)
  · have hq := hentered.trans (uncounted_checkAccess hd (hentered.quiet hp) ha)
    dsimp only
    rcases hi : q.invoke (.handler h) (fun _ => .continued) h with ⟨e | r, q'⟩
    · have hq' := hq.trans (uncounted_invoke (hq.quiet hp) hh hi)
      exact hq'.trans (uncounted_failure hd (hq'.quiet hp) e)
    · exact hq.trans (uncounted_invoke (hq.quiet hp) hh hi)

theorem uncounted_runAfter (hd : d.CountsBetween earlier later)
    {fs : List (FilterEntry (AfterFilter σ))}
    (hfs : ∀ f ∈ fs, ∀ r, (f.filter r).Makes Call.LeavesCounters) (r : Response) (hp : p.Quiet) :
    p.Uncounted (d.runAfter fs r p).2 := by
  induction fs generalizing r p with
  | nil => exact .refl p
  | cons f fs ih =>
      obtain ⟨hf, hrest⟩ := List.forall_mem_cons.1 hfs
      rw [runAfter]
      rcases hi : p.invoke (.after f.filter) (fun _ => .continued) (f.filter r) with ⟨e | r', q⟩
      · have hq :=
          (uncounted_invoke hp (hf r) hi).trans
            (uncounted_report q (.afterFilterFailed q.id e.category))
        have hmapped := hq.trans (uncounted_failure hd (hq.quiet hp) e)
        have hentered := hmapped.trans (uncounted_enter _ .afterFilters)
        exact hentered.trans (ih hrest _ (hentered.quiet hp))
      · have hq := uncounted_invoke hp (hf r) hi
        exact hq.trans (ih hrest r' (hq.quiet hp))

/-!
### The two hooks among the filters
-/

theorem runBefore_append (d : Dispatcher σ) (fs gs : List (FilterEntry (BeforeFilter σ)))
    (p : Passage σ) :
    d.runBefore (fs ++ gs) p =
      match d.runBefore fs p with
      | (none, p) => d.runBefore gs p
      | (some r, p) => (some r, p) := by
  induction fs generalizing p with
  | nil => rfl
  | cons f fs ih =>
      rw [List.cons_append, runBefore_cons, runBefore_cons d f fs]
      rcases d.runBefore [f] p with ⟨_ | r, q⟩
      · exact ih q
      · rfl

theorem runAfter_append (d : Dispatcher σ) (fs gs : List (FilterEntry (AfterFilter σ)))
    (r : Response) (p : Passage σ) :
    d.runAfter (fs ++ gs) r p = d.runAfter gs (d.runAfter fs r p).1 (d.runAfter fs r p).2 := by
  induction fs generalizing r p with
  | nil => rfl
  | cons f fs ih =>
      rw [List.cons_append, runAfter_cons, runAfter_cons d f fs]
      exact ih _ _

variable {matched : MatchedRoute} {inFlight passed : ℕ} {reached : List String}

theorem exists_runBefore_counting (d : Dispatcher σ) (scope : Option String)
    (h : p.Shows matched inFlight passed reached) :
    ∃ q, d.runBefore [⟨scope, Middleware.counting.before⟩] p = (none, q) ∧
      q.Shows matched (inFlight + 1) (passed + 1) reached := by
  obtain ⟨r, hrun, hmetrics⟩ := Middleware.run_before_counting p.handler p.run
  have hroute := Program.route_run p.handler Middleware.counting.before p.run
  rw [hrun] at hroute
  refine ⟨{ p with run := r }.enterStep (.before Middleware.counting.before) .continued,
    ?_, h.quiet, hroute.trans h.route, ?_⟩
  · rw [runBefore, Passage.invoke_of_ok hrun]
    rfl
  · change r.metrics.Tallies _ _ _
    rw [hmetrics]
    exact h.tallies.started

/-- The hook after handlers changes no response, and counts the end of the request for its route,
whether or not its start has been counted. -/
theorem exists_runAfter_counting (d : Dispatcher σ) (scope : Option String) (response : Response)
    (h : p.Shows matched inFlight passed reached) (hle : inFlight ≤ 1) :
    ∃ q, d.runAfter [⟨scope, Middleware.counting.afterFilter⟩] response p = (response, q) ∧
      q.Shows matched 0 passed (reached ++ [matched.pattern.template]) := by
  obtain ⟨r, status, nanos, hrun, hmetrics⟩ :=
    Middleware.run_afterFilter_counting p.handler response p.run
  have hroute := Program.route_run p.handler (Middleware.counting.afterFilter response) p.run
  rw [hrun] at hroute
  refine ⟨{ p with run := r }.enterStep (.after Middleware.counting.afterFilter) .continued,
    ?_, h.quiet, hroute.trans h.route, ?_⟩
  · rw [runAfter, Passage.invoke_of_ok hrun]
    rfl
  · change r.metrics.Tallies _ _ _
    rw [hmetrics, h.route]
    exact h.tallies.finished hle status nanos matched.pattern.template

theorem shows_runAfter (hd : d.CountsBetween earlier later) (path : String) (r : Response)
    (h : p.Shows matched inFlight passed reached) (hle : inFlight ≤ 1) :
    (d.runAfter (d.routes.afterFor path) r p).2.Shows matched 0 passed
      (reached ++ [matched.pattern.template]) := by
  rw [hd.afterFor_eq, runAfter_append]
  have hearlier := h.of_uncounted
    (uncounted_runAfter hd (makes_of_mem_afterFor hd.earlier path) r h.quiet)
  generalize d.runAfter (afterFor earlier path) r p = filtered at hearlier ⊢
  obtain ⟨r₁, q⟩ := filtered
  obtain ⟨q₁, hhook, hcounted⟩ := d.exists_runAfter_counting none r₁ hearlier hle
  rw [runAfter_cons, hhook]
  exact hcounted.of_uncounted
    (uncounted_runAfter hd (makes_of_mem_afterFor hd.later path) r₁ hcounted.quiet)

/-- Every request that has a route is counted for it at its end, and at its start if no filter that
comes before the hook has stopped it. -/
theorem shows_runRoute (hd : d.CountsBetween earlier later) {entry : RouteEntry (Handler σ)}
    (hentry : entry.handler.Makes Call.LeavesCounters) {path : String}
    (hpath : p.run.context.exchange.request.path = path) (h : p.Shows matched 0 passed reached) :
    (d.runRoute entry p).2.Shows matched 0
      (if (d.runBefore (beforeFor earlier path) (p.enter .beforeFilters)).1 = none then passed + 1
        else passed)
      (reached ++ [matched.pattern.template]) := by
  have hentered := h.of_uncounted (uncounted_enter p .beforeFilters)
  have hearlier := hentered.of_uncounted
    (uncounted_runBefore hd (makes_of_mem_beforeFor hd.earlier path) hentered.quiet)
  unfold runRoute
  dsimp only
  rw [hpath, hd.beforeFor_eq, runBefore_append]
  generalize d.runBefore (beforeFor earlier path) (p.enter .beforeFilters) = filtered at hearlier ⊢
  obtain ⟨_ | r, q⟩ := filtered
  · obtain ⟨q₁, hhook, hcounted⟩ := d.exists_runBefore_counting none hearlier
    dsimp only
    rw [if_pos rfl, runBefore_cons, hhook]
    have hlater := hcounted.of_uncounted
      (uncounted_runBefore hd (makes_of_mem_beforeFor hd.later path) hcounted.quiet)
    dsimp only
    generalize d.runBefore (beforeFor later path) q₁ = filtered at hlater ⊢
    obtain ⟨_ | r, q₂⟩ := filtered
    · have hhandled := hlater.of_uncounted (uncounted_runHandler hd hlater.quiet entry.roles hentry)
      exact shows_runAfter hd path _
        (hhandled.of_uncounted (uncounted_enter _ .afterFilters)) le_rfl
    · exact shows_runAfter hd path _ (hlater.of_uncounted (uncounted_enter _ .afterFilters)) le_rfl
  · exact shows_runAfter hd path _ (hearlier.of_uncounted (uncounted_enter _ .afterFilters))
      (Nat.zero_le 1)

/-!
### What the journal shows of it
-/

/-- The entries of filters before handlers that have let the request go on. -/
def continuedBy (fs : List (FilterEntry (BeforeFilter σ))) : List (Callback σ × Course) :=
  fs.map fun f => (.before f.filter, .continued)

def courses (steps : List (Step σ)) : List (Callback σ × Course) :=
  steps.map fun s => (s.callback, s.course)

/-- Whatever follows, the entries show whether all filters have let the request go on. -/
theorem exists_journal_runBefore (d : Dispatcher σ) (fs : List (FilterEntry (BeforeFilter σ)))
    (p : Passage σ) :
    ∃ steps, (d.runBefore fs p).2.journal = p.journal ++ steps ∧
      ∀ more, continuedBy fs <+: courses (steps ++ more) ↔ (d.runBefore fs p).1 = none := by
  induction fs generalizing p with
  | nil => exact ⟨[], (List.append_nil _).symm, fun more => iff_of_true List.nil_prefix rfl⟩
  | cons f fs ih =>
      rw [runBefore]
      rcases hi : p.invoke (.before f.filter) Verdict.course f.filter with ⟨result, q⟩
      have hq := (leads_invoke (d := d) (fun r => .before f.filter r) hi).journal
      rcases result with e | verdict | response
      · obtain ⟨reply, -, hmapped⟩ := d.leads_failure e q
        refine ⟨⟨.before f.filter, .failed e, q.headersSent⟩ :: reply, ?_, fun more => ?_⟩
        · exact hmapped.journal.trans ((congrArg (· ++ reply) hq).trans (List.append_assoc _ _ _))
        · refine iff_of_false (fun h => ?_) (Option.some_ne_none _)
          cases congrArg Prod.snd (List.cons_prefix_cons.1 h).1
      · obtain ⟨steps, hjournal, hcourses⟩ := ih q
        refine ⟨⟨.before f.filter, .continued, q.headersSent⟩ :: steps, ?_, fun more => ?_⟩
        · exact hjournal.trans ((congrArg (· ++ steps) hq).trans (List.append_assoc _ _ _))
        · rw [← hcourses more]
          exact List.cons_prefix_cons.trans (and_iff_right rfl)
      · refine ⟨_, hq, fun more => iff_of_false (fun h => ?_) (Option.some_ne_none _)⟩
        cases congrArg Prod.snd (List.cons_prefix_cons.1 h).1

theorem exists_journal_runRoute (d : Dispatcher σ) (entry : RouteEntry (Handler σ)) (p : Passage σ)
    {path : String} (hpath : p.run.context.exchange.request.path = path)
    {fs gs : List (FilterEntry (BeforeFilter σ))} (hfs : d.routes.beforeFor path = fs ++ gs) :
    ∃ more, (d.runRoute entry p).2.journal =
      (d.runBefore fs (p.enter .beforeFilters)).2.journal ++ more := by
  unfold runRoute
  dsimp only
  rw [hpath, hfs, runBefore_append]
  obtain ⟨_ | r, q⟩ := d.runBefore fs (p.enter .beforeFilters)
  · dsimp only
    obtain ⟨-, steps, -, -, -, hrest⟩ := d.leads_runBefore gs q
    generalize d.runBefore gs q = filtered at hrest ⊢
    obtain ⟨_ | r, q₁⟩ := filtered
    · obtain ⟨-, served, -, -, hhandled⟩ := d.leads_runHandler entry q₁
      obtain ⟨-, after, -, -, hafter⟩ := d.leads_runAfter (d.routes.afterFor path)
        (d.runHandler entry.roles entry.handler q₁).1
        ((d.runHandler entry.roles entry.handler q₁).2.enter .afterFilters)
      exact ⟨_,
        (hrest.trans (hhandled.trans ((leads_enter d _ .afterFilters).trans hafter))).journal⟩
    · obtain ⟨-, after, -, -, hafter⟩ :=
        d.leads_runAfter (d.routes.afterFor path) r (q₁.enter .afterFilters)
      exact ⟨_, (hrest.trans ((leads_enter d _ .afterFilters).trans hafter)).journal⟩
  · obtain ⟨-, after, -, -, hafter⟩ :=
      d.leads_runAfter (d.routes.afterFor path) r (q.enter .afterFilters)
    exact ⟨_, ((leads_enter d q .afterFilters).trans hafter).journal⟩

/-!
### One request
-/

def template? (d : Dispatcher σ) (x : Exchange) : Option String :=
  (d.routes.route? x.request.method x.request.path).map (·.pattern.template)

/-- The request has a route, and its journal begins with the filters before handlers that were
registered earlier, each of which has let it go on. -/
def LetThrough (d : Dispatcher σ) (earlier : List (RoutesRegistration σ)) (x : Exchange)
    (o : Dispatched σ) : Prop :=
  (d.template? x).isSome ∧ continuedBy (beforeFor earlier x.request.path) <+: courses o.journal

theorem letThrough_dispatch_iff (hd : d.CountsBetween earlier later) (s : Surroundings σ)
    {x : Exchange} {entry : RouteEntry (Handler σ)}
    (h : d.routes.route? x.request.method x.request.path = some entry) :
    d.LetThrough earlier x (d.dispatch s x) ↔
      (d.runBefore (beforeFor earlier x.request.path)
        ((d.routed s x entry).enter .beforeFilters)).1 = none := by
  have hpath : (d.routed s x entry).run.context.exchange.request.path = x.request.path := rfl
  have hempty : ((d.routed s x entry).enter .beforeFilters).journal = [] := rfl
  obtain ⟨steps, hsteps, hiff⟩ := d.exists_journal_runBefore (beforeFor earlier x.request.path)
    ((d.routed s x entry).enter .beforeFilters)
  obtain ⟨more, hmore⟩ := d.exists_journal_runRoute entry (d.routed s x entry)
    hpath (hd.beforeFor_eq x.request.path)
  have hjournal : (d.dispatch s x).journal = steps ++ more := by
    rw [dispatch_of_route h, (journal_finish _ _).1, hmore, hsteps, hempty, List.nil_append]
  have hroute : (d.template? x).isSome := by
    rw [template?, h]
    rfl
  rw [LetThrough, hjournal, and_iff_right hroute]
  exact hiff more

variable {s : Surroundings σ} {x : Exchange}

theorem exists_route_of_template? {t : String} (h : d.template? x = some t) :
    ∃ entry, d.routes.route? x.request.method x.request.path = some entry ∧
      entry.pattern.template = t :=
  Option.map_eq_some_iff.1 h

theorem respond_of_miss (s : Surroundings σ) (h : d.template? x = none) :
    d.respond s x = d.handleError (.http .notFound) ((d.received s x).fail (.http .notFound)) := by
  rw [respond, Option.map_eq_none_iff.1 h]

theorem metrics_dispatch (d : Dispatcher σ) (s : Surroundings σ) (x : Exchange) :
    (d.dispatch s x).run.metrics = (d.respond s x).2.run.metrics := by
  rw [d.dispatch_eq_finish s x]
  rfl

theorem growsTo_dispatch_of_miss (hd : d.CountsBetween earlier later) (s : Surroundings σ)
    (h : d.template? x = none) : s.metrics.GrowsTo (d.dispatch s x).run.metrics := by
  rw [metrics_dispatch, respond_of_miss s h]
  have hquiet : (d.received s x).Quiet := fun _ => nofun
  exact (uncounted_failure hd hquiet (.http .notFound)).metrics

/-- A request without a route does not even make a route known if error handlers do not. -/
theorem metrics_dispatch_of_miss
    (herror : ∀ c h, (c, h) ∈ d.errorHandlers.entries → ∀ e, (h e).LeavesMetrics)
    (s : Surroundings σ) (h : d.template? x = none) : (d.dispatch s x).run.metrics = s.metrics := by
  rw [metrics_dispatch, respond_of_miss s h]
  obtain ⟨steps, hmapped, hleads⟩ := d.leads_failure (.http .notFound) (d.received s x)
  have hnobody : ∀ h ∈ (d.received s x).handler, h.LeavesMetrics := by rintro h ⟨⟩
  refine hleads.tells.metrics_eq hnobody ?_
  unfold Journal.Mapped at hmapped
  split at hmapped
  · obtain ⟨step, rfl, hstep⟩ := hmapped
    rw [List.forall_mem_singleton, hstep]
    exact fun h hh => herror _ h (ErrorHandlers.mem_entries_of_find? hh) _
  · rw [hmapped]
    exact List.forall_mem_nil _

open scoped Classical in
theorem tallies_dispatch (hd : d.CountsBetween earlier later) (x : Exchange)
    (h : s.metrics.Tallies 0 passed reached) :
    (d.dispatch s x).run.metrics.Tallies 0
      (if d.LetThrough earlier x (d.dispatch s x) then passed + 1 else passed)
      (reached ++ (d.template? x).toList) := by
  cases ht : d.template? x with
  | none =>
      have hmiss : ¬ d.LetThrough earlier x (d.dispatch s x) := by
        rw [LetThrough, ht]
        rintro ⟨⟨⟩, -⟩
      rw [if_neg hmiss, Option.toList_none, List.append_nil]
      exact h.growsTo (growsTo_dispatch_of_miss hd s ht)
  | some t =>
      obtain ⟨entry, hroute, rfl⟩ := exists_route_of_template? ht
      have hentry := hd.handler hroute
      have hrouted : (d.routed s x entry).Shows entry.matched 0 passed reached := by
        refine ⟨?_, rfl, h⟩
        rintro h ⟨⟩
        exact hentry
      have hpath : (d.routed s x entry).run.context.exchange.request.path = x.request.path := rfl
      have hserved := (shows_runRoute hd hentry hpath hrouted).tallies
      have hmetrics : (d.dispatch s x).run.metrics =
          (d.runRoute entry (d.routed s x entry)).2.run.metrics := by
        rw [dispatch_of_route hroute]
        rfl
      have hiff := letThrough_dispatch_iff hd s hroute
      rw [hmetrics]
      by_cases hlet : d.LetThrough earlier x (d.dispatch s x)
      · rw [if_pos (hiff.1 hlet)] at hserved
        rw [if_pos hlet]
        exact hserved
      · rw [if_neg (mt hiff.2 hlet)] at hserved
        rw [if_neg hlet]
        exact hserved

end Dispatcher

/-!
## Any number of requests
-/

/-- Requests that have been dispatched one after another, and what they have left behind. -/
structure Series (σ : Type) where
  app : σ
  metrics : Metrics
  dispatched : List (Exchange × Dispatched σ) := []

namespace Series

variable {d : Dispatcher σ} {earlier later : List (RoutesRegistration σ)} {l : Series σ}

def start (app : σ) (templates : List String) : Series σ :=
  { app, metrics := templates.foldl Metrics.register {} }

def next (d : Dispatcher σ) (l : Series σ) (arrival : Surroundings σ × Exchange) : Series σ :=
  let o := d.dispatch { arrival.1 with app := l.app, metrics := l.metrics } arrival.2
  { app := o.run.app, metrics := o.run.metrics, dispatched := l.dispatched ++ [(arrival.2, o)] }

def after (d : Dispatcher σ) (l : Series σ) (arrivals : List (Surroundings σ × Exchange)) :
    Series σ :=
  arrivals.foldl (next d) l

def reached (d : Dispatcher σ) (l : Series σ) : List String :=
  (l.dispatched.map Prod.fst).filterMap d.template?

open scoped Classical in
/-- How many requests no filter that was registered earlier has stopped. -/
noncomputable def letThrough (d : Dispatcher σ) (earlier : List (RoutesRegistration σ))
    (l : Series σ) : ℕ :=
  l.dispatched.countP fun o => d.LetThrough earlier o.1 o.2

theorem exchanges_after (d : Dispatcher σ) (l : Series σ)
    (arrivals : List (Surroundings σ × Exchange)) :
    (l.after d arrivals).dispatched.map Prod.fst =
      l.dispatched.map Prod.fst ++ arrivals.map Prod.snd := by
  induction arrivals generalizing l with
  | nil => exact (List.append_nil _).symm
  | cons a arrivals ih =>
      have hnext : (l.next d a).dispatched.map Prod.fst = l.dispatched.map Prod.fst ++ [a.2] :=
        List.map_append
      exact (ih _).trans (by rw [hnext, List.append_assoc]; rfl)

def Counted (d : Dispatcher σ) (earlier : List (RoutesRegistration σ)) (l : Series σ) : Prop :=
  l.metrics.Tallies 0 (l.letThrough d earlier) (l.reached d)

theorem counted_start (d : Dispatcher σ) (earlier : List (RoutesRegistration σ)) (app : σ)
    (templates : List String) : (start app templates).Counted d earlier :=
  Metrics.tallies_empty.growsTo ⟨templates, rfl⟩

theorem Counted.next (hd : d.CountsBetween earlier later) (h : l.Counted d earlier)
    (arrival : Surroundings σ × Exchange) : (l.next d arrival).Counted d earlier := by
  obtain ⟨s, x⟩ := arrival
  have hstep :=
    Dispatcher.tallies_dispatch hd x (s := { s with app := l.app, metrics := l.metrics }) h
  have hmetrics : (l.next d (s, x)).metrics =
      (d.dispatch { s with app := l.app, metrics := l.metrics } x).run.metrics := rfl
  have hdispatched : (l.next d (s, x)).dispatched =
      l.dispatched ++ [(x, d.dispatch { s with app := l.app, metrics := l.metrics } x)] := rfl
  rw [Counted, hmetrics, letThrough, reached, hdispatched]
  generalize d.dispatch { s with app := l.app, metrics := l.metrics } x = o at hstep ⊢
  have htemplate : [x].filterMap d.template? = (d.template? x).toList := by
    rw [List.filterMap_cons]
    cases d.template? x <;> rfl
  rw [List.countP_append, List.countP_singleton, List.map_append, List.filterMap_append,
    List.map_singleton, htemplate]
  by_cases hlet : d.LetThrough earlier x o
  · rw [if_pos hlet] at hstep
    rw [if_pos (by simpa using hlet)]
    exact hstep
  · rw [if_neg hlet] at hstep
    rw [if_neg (by simpa using hlet)]
    exact hstep

theorem Counted.after (hd : d.CountsBetween earlier later) (h : l.Counted d earlier)
    (arrivals : List (Surroundings σ × Exchange)) : (l.after d arrivals).Counted d earlier := by
  induction arrivals generalizing l with
  | nil => exact h
  | cons a arrivals ih => exact ih (h.next hd a)

/-- However requests follow each other and whatever becomes of them, none is being handled after
they have been dispatched. Every request that has a route has been counted at its end, in one class
of status and for its route, and at its start if no filter that was registered earlier has stopped
it. No route has more errors than requests, and a request without a route counts nothing. -/
theorem counters_after (hd : d.CountsBetween earlier later) {app : σ} {templates : List String}
    {arrivals : List (Surroundings σ × Exchange)} {l : Series σ}
    (hl : (start app templates).after d arrivals = l)
    {reached : List String} (hreached : (arrivals.map Prod.snd).filterMap d.template? = reached) :
    l.metrics.inFlight = 0 ∧
      l.metrics.completed = .ofNat reached.length ∧
      (l.metrics.routes.map (·.2.requests)).sum = .ofNat reached.length ∧
      l.metrics.requests = .ofNat (l.letThrough d earlier) ∧
      (∀ t, (l.metrics.counters t).requests = .ofNat (reached.count t)) ∧
      (∀ t, ∃ errors ≤ reached.count t, (l.metrics.counters t).errors = .ofNat errors) ∧
      (reached.length < UInt64.size →
        ∑ c, (l.metrics.classes c).toNat = reached.length ∧
        (l.metrics.routes.map (·.2.requests.toNat)).sum = reached.length ∧
        ∀ t, (l.metrics.counters t).errors ≤ (l.metrics.counters t).requests) ∧
      ∀ arrival, d.template? arrival.2 = none →
        l.metrics.GrowsTo (l.next d arrival).metrics ∧
        ((∀ c h, (c, h) ∈ d.errorHandlers.entries → ∀ e, (h e).LeavesMetrics) →
          (l.next d arrival).metrics = l.metrics) := by
  have hcounted := (counted_start d earlier app templates).after hd arrivals
  have hall := exchanges_after d (start app templates) arrivals
  rw [hl] at hcounted hall
  have heq : l.reached d = reached := by
    rw [← hreached, Series.reached, hall]
    rfl
  rw [Counted, heq] at hcounted
  refine ⟨hcounted.inFlight, hcounted.completed, hcounted.sum_requests,
    hcounted.requests, hcounted.routes,
    hcounted.errors, fun hlt => ⟨hcounted.sum_toNat_classes hlt, hcounted.sum_toNat_requests hlt,
      hcounted.errors_le_requests hlt⟩, fun arrival hmiss => ⟨?_, fun herror => ?_⟩⟩
  · exact Dispatcher.growsTo_dispatch_of_miss hd
      { arrival.1 with app := l.app, metrics := l.metrics } hmiss
  · exact Dispatcher.metrics_dispatch_of_miss herror
      { arrival.1 with app := l.app, metrics := l.metrics } hmiss

def closing : List (RoutesRegistration Unit) := [.before (some "/shut") (.done (.halt {}))]

/-- Two handlers for one template, of which one breaks down, and a handler for the path that is
closed. -/
def sheltering : List (RoutesRegistration Unit) :=
  [.route .get "/pets/\x7bid\x7d" [] (.done {}),
    .route .post "/pets/\x7bid\x7d" [] (.panic "no room"), .route .get "/shut" [] (.done {})]

def shelter : Dispatcher Unit :=
  { Dispatcher.idle with
    routes := (RouteTable.empty false 8).registerValid
      (closing ++ .around none Middleware.counting.before Middleware.counting.afterFilter ::
        sheltering) }

def visits : List (Surroundings Unit × Exchange) :=
  [(.get, "/pets/1"), (.post, "/pets/2"), (.get, "/nowhere"), (.get, "/shut")].map
    fun (method, path) =>
    ({ app := (), freshId := ⟨0⟩ }, .inMemory { method, path } [] {})

theorem countsBetween_shelter : shelter.CountsBetween closing sheltering := by
  refine ⟨⟨false, 8, rfl⟩, ?_, ?_, fun _ => nofun, fun _ _ => nofun⟩
  · exact List.forall_mem_singleton.2 trivial
  · simp only [sheltering, List.forall_mem_cons, List.not_mem_nil, false_imp_iff, implies_true,
      and_true]
    exact ⟨trivial, trivial, trivial⟩

/-- Of four requests three have a route; one of these is stopped, and one is answered
with an error. -/
theorem counters_after_shelter :
    shelter.CountsBetween closing sheltering ∧
      (visits.map Prod.snd).filterMap shelter.template? =
        ["/pets/\x7bid\x7d", "/pets/\x7bid\x7d", "/shut"] ∧
      UInt64.ofNat (((start () []).after shelter visits).letThrough shelter closing) = 2 ∧
      ((start () []).after shelter visits).metrics.completed = 3 ∧
      (((start () []).after shelter visits).metrics.counters "/pets/\x7bid\x7d").requests = 2 ∧
      (((start () []).after shelter visits).metrics.counters "/pets/\x7bid\x7d").errors = 1 := by
  have hreached : (visits.map Prod.snd).filterMap shelter.template? =
      ["/pets/\x7bid\x7d", "/pets/\x7bid\x7d", "/shut"] := by decide +kernel
  obtain ⟨-, hcompleted, -, hrequests, hroutes, -⟩ :=
    counters_after countsBetween_shelter (Eq.refl ((start () []).after shelter visits)) hreached
  refine ⟨countsBetween_shelter, hreached, ?_, hcompleted, hroutes _, by decide +kernel⟩
  rw [← hrequests]
  decide +kernel

end Series

end HttpDispatch
