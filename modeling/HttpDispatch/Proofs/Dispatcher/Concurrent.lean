import HttpDispatch.Proofs.Dispatcher.Failure
import Mathlib.Logic.Function.Iterate

/-!
# Requests that are dispatched at the same time

Requests that are dispatched at the same time share the state of the application and the metrics,
and nothing else. A turn of a request runs the next of its filters, or its handler, and maps a
failure of that; any request may have the next turn (`Service.after`). A request that is not
disturbed comes to the response that it comes to when it is dispatched alone
(`Service.exists_after_eq_respond`).
-/

namespace HttpDispatch

variable {σ : Type}

inductive Stage (σ : Type) where
  /-- It has no route. -/
  | missed
  /-- These filters, and then the handler. -/
  | before (entry : RouteEntry (Handler σ)) (filters : List (FilterEntry (BeforeFilter σ)))
  /-- These filters, which are given the response. -/
  | after (filters : List (FilterEntry (AfterFilter σ))) (response : Response)

structure Underway (σ : Type) where
  passage : Passage σ
  path : String
  stage : Stage σ

inductive Stage.Runs : Stage σ → Callback σ → Prop
  | before (entry : RouteEntry (Handler σ)) (f : FilterEntry (BeforeFilter σ))
    (fs : List (FilterEntry (BeforeFilter σ))) : Runs (.before entry (f :: fs)) (.before f.filter)
  | access (entry : RouteEntry (Handler σ)) : Runs (.before entry []) (.access entry.roles)
  | handler (entry : RouteEntry (Handler σ)) : Runs (.before entry []) (.handler entry.handler)
  | after (f : FilterEntry (AfterFilter σ)) (fs : List (FilterEntry (AfterFilter σ)))
    (response : Response) : Runs (.after (f :: fs) response) (.after f.filter)
  | errorHandler (stage : Stage σ) (c : Category) (e : DispatchError) :
      Runs stage (.errorHandler c e)

inductive Stage.Moves (d : Dispatcher σ) (path : String) : Stage σ → Stage σ → Prop
  | answered (r : Response) : Moves d path .missed (.after [] r)
  | passed (entry : RouteEntry (Handler σ)) (f : FilterEntry (BeforeFilter σ))
    (fs : List (FilterEntry (BeforeFilter σ))) :
      Moves d path (.before entry (f :: fs)) (.before entry fs)
  | stopped (entry : RouteEntry (Handler σ)) (f : FilterEntry (BeforeFilter σ))
    (fs : List (FilterEntry (BeforeFilter σ))) (r : Response) :
    Moves d path (.before entry (f :: fs)) (.after (d.routes.afterFor path) r)
  | handled (entry : RouteEntry (Handler σ)) (r : Response) :
    Moves d path (.before entry []) (.after (d.routes.afterFor path) r)
  | filtered (f : FilterEntry (AfterFilter σ)) (fs : List (FilterEntry (AfterFilter σ)))
    (r r' : Response) : Moves d path (.after (f :: fs) r) (.after fs r')
  | ended (r : Response) : Moves d path (.after [] r) (.after [] r)

namespace Dispatcher

open Journal Passage

/-- A request is taken up: its route is looked up, and no callback has been run. -/
def takeUp (d : Dispatcher σ) (s : Surroundings σ) (x : Exchange) : Underway σ :=
  match d.routes.route? x.request.method x.request.path with
  | none =>
    { passage := (d.received s x).fail (.http .notFound), path := x.request.path, stage := .missed }
  | some entry =>
    { passage := (d.routed s x entry).enter .beforeFilters, path := x.request.path,
      stage := .before entry (d.routes.beforeFor x.request.path) }

/-- A turn of a request. Nothing is left to do for one that has a response and no filter
before it. -/
def advance (d : Dispatcher σ) (u : Underway σ) : Underway σ :=
  match u.stage with
  | .missed =>
    match d.handleError (.http .notFound) u.passage with
    | (r, p) => { u with passage := p, stage := .after [] r }
  | .before entry [] =>
    match d.runHandler entry.roles entry.handler u.passage with
    | (r, p) =>
        { u with passage := p.enter .afterFilters, stage := .after (d.routes.afterFor u.path) r }
  | .before entry (f :: fs) =>
    match d.runBefore [f] u.passage with
    | (none, p) => { u with passage := p, stage := .before entry fs }
    | (some r, p) =>
      { u with passage := p.enter .afterFilters, stage := .after (d.routes.afterFor u.path) r }
  | .after [] _ => u
  | .after (f :: fs) r =>
    match d.runAfter [f] r u.passage with
    | (r, p) => { u with passage := p, stage := .after fs r }

/-!
## One request alone
-/

theorem runBefore_cons (d : Dispatcher σ) (f : FilterEntry (BeforeFilter σ))
    (fs : List (FilterEntry (BeforeFilter σ))) (p : Passage σ) :
    d.runBefore (f :: fs) p =
      match d.runBefore [f] p with
      | (none, p) => d.runBefore fs p
      | (some r, p) => (some r, p) := by
  rw [runBefore, runBefore]
  rcases p.invoke (.before f.filter) Verdict.course f.filter with ⟨e | verdict | response, q⟩
  · rfl
  · rfl
  · rfl

theorem runAfter_cons (d : Dispatcher σ) (f : FilterEntry (AfterFilter σ))
    (fs : List (FilterEntry (AfterFilter σ))) (r : Response) (p : Passage σ) :
    d.runAfter (f :: fs) r p = d.runAfter fs (d.runAfter [f] r p).1 (d.runAfter [f] r p).2 := by
  rw [runAfter, runAfter]
  rcases p.invoke (.after f.filter) (fun _ => .continued) (f.filter r) with ⟨e | response, q⟩
  · rfl
  · rfl

theorem iterate_advance_after (d : Dispatcher σ) (path : String)
    (fs : List (FilterEntry (AfterFilter σ))) (r : Response) (p : Passage σ) :
    d.advance^[fs.length] ⟨p, path, .after fs r⟩ =
      ⟨(d.runAfter fs r p).2, path, .after [] (d.runAfter fs r p).1⟩ := by
  induction fs generalizing r p with
  | nil => rfl
  | cons f fs ih =>
      rw [List.length_cons, Function.iterate_succ_apply, runAfter_cons]
      exact ih _ _

/-- The filters before the handler are run one in each turn, up to the first that halts the request
or fails. -/
theorem exists_iterate_advance_before (d : Dispatcher σ) (path : String)
    (entry : RouteEntry (Handler σ)) (fs : List (FilterEntry (BeforeFilter σ))) (p : Passage σ) :
    ∃ n, d.advance^[n] ⟨p, path, .before entry fs⟩ =
      match d.runBefore fs p with
      | (none, p) => ⟨p, path, .before entry []⟩
      | (some r, p) => ⟨p.enter .afterFilters, path, .after (d.routes.afterFor path) r⟩ := by
  induction fs generalizing p with
  | nil => exact ⟨0, rfl⟩
  | cons f fs ih =>
      rw [runBefore_cons]
      have hturn : d.advance ⟨p, path, .before entry (f :: fs)⟩ =
          match d.runBefore [f] p with
          | (none, p) => ⟨p, path, .before entry fs⟩
          | (some r, p) => ⟨p.enter .afterFilters, path, .after (d.routes.afterFor path) r⟩ := rfl
      generalize d.runBefore [f] p = filtered at hturn ⊢
      obtain ⟨_ | r, q⟩ := filtered
      · obtain ⟨n, hn⟩ := ih q
        exact ⟨n + 1, by rw [Function.iterate_succ_apply, hturn, hn]⟩
      · exact ⟨1, hturn⟩

/-- A request alone comes to the response that its dispatch comes to. -/
theorem exists_iterate_advance_takeUp (d : Dispatcher σ) (s : Surroundings σ) (x : Exchange) :
    ∃ n, d.advance^[n] (d.takeUp s x) =
      ⟨(d.respond s x).2, x.request.path, .after [] (d.respond s x).1⟩ := by
  unfold takeUp respond
  cases hr : d.routes.route? x.request.method x.request.path with
  | none => exact ⟨1, rfl⟩
  | some entry =>
      have hpath : (d.routed s x entry).run.context.exchange.request.path = x.request.path := rfl
      unfold runRoute
      dsimp only
      rw [hpath]
      generalize x.request.path = path
      generalize (d.routed s x entry).enter .beforeFilters = p
      obtain ⟨n, hn⟩ := d.exists_iterate_advance_before path entry (d.routes.beforeFor path) p
      generalize d.runBefore (d.routes.beforeFor path) p = filtered at hn ⊢
      obtain ⟨_ | r, q⟩ := filtered
      · have hafter := d.iterate_advance_after path (d.routes.afterFor path)
          (d.runHandler entry.roles entry.handler q).1
          ((d.runHandler entry.roles entry.handler q).2.enter .afterFilters)
        refine ⟨(d.routes.afterFor path).length + 1 + n, ?_⟩
        rw [Function.iterate_add_apply, hn, Function.iterate_succ_apply]
        exact hafter
      · refine ⟨(d.routes.afterFor path).length + n, ?_⟩
        rw [Function.iterate_add_apply, hn]
        exact d.iterate_advance_after path (d.routes.afterFor path) r (q.enter .afterFilters)

/-!
## What a turn runs
-/

theorem runs_of_mapped {d : Dispatcher σ} {e : DispatchError} {sent : Bool} {steps : List (Step σ)}
    (h : Mapped d e sent steps) (stage : Stage σ) : ∀ s ∈ steps, stage.Runs s.callback := by
  unfold Mapped at h
  split at h
  · obtain ⟨s, rfl, hs⟩ := h
    rw [List.forall_mem_singleton, hs]
    exact .errorHandler stage _ e
  · rw [h]
    exact List.forall_mem_nil _

/-- Beside the callbacks that it answers, an answered journal has nothing but error handlers. -/
theorem runs_of_answered {d : Dispatcher σ} {main steps : List (Step σ)} {stage : Stage σ}
    (h : Answered d main steps) (hmain : ∀ s ∈ main, stage.Runs s.callback) :
    ∀ s ∈ steps, stage.Runs s.callback := by
  induction h with
  | nil => exact hmain
  | @cons s reply main steps hreply _ ih =>
      obtain ⟨hs, hrest⟩ := List.forall_mem_cons.1 hmain
      refine List.forall_mem_cons.2 ⟨hs, List.forall_mem_append.2 ⟨?_, ih hrest⟩⟩
      unfold Reply at hreply
      split at hreply
      · exact runs_of_mapped hreply stage
      · rw [hreply]
        exact List.forall_mem_nil _

theorem runs_of_served {d : Dispatcher σ} {entry : RouteEntry (Handler σ)} {main : List (Step σ)}
    (h : Served d entry main) : ∀ s ∈ main, (Stage.before entry []).Runs s.callback := by
  unfold Served at h
  split at h
  · obtain ⟨s, rfl, hs⟩ := h
    rw [List.forall_mem_singleton, hs]
    exact .handler entry
  · obtain ⟨a, ha, hpassed, hrefused⟩ := h
    have haccess : (Stage.before entry []).Runs a.callback := ha ▸ .access entry
    by_cases hcourse : a.course = .continued
    · obtain ⟨s, rfl, hs⟩ := hpassed hcourse
      exact List.forall_mem_cons.2 ⟨haccess, List.forall_mem_singleton.2 (hs ▸ .handler entry)⟩
    · rw [hrefused hcourse]
      exact List.forall_mem_singleton.2 haccess

/-- A turn makes entries for the callbacks of its stage only, and they tell what it has done. -/
theorem leads_advance (d : Dispatcher σ) (u : Underway σ) :
    ∃ steps, u.passage.Leads d steps (d.advance u).passage ∧
      ∀ s ∈ steps, u.stage.Runs s.callback := by
  obtain ⟨p, path, stage⟩ := u
  cases stage with
  | missed =>
      obtain ⟨steps, hmapped, h⟩ := d.leads_handleError (.http .notFound) p
      exact ⟨steps, h, runs_of_mapped hmapped _⟩
  | before entry filters =>
      cases filters with
      | nil =>
          obtain ⟨main, steps, hserved, hanswered, h⟩ := d.leads_runHandler entry p
          refine ⟨steps ++ [], h.trans (leads_enter d _ .afterFilters), ?_⟩
          rw [List.append_nil]
          exact runs_of_answered hanswered (runs_of_served hserved)
      | cons f fs =>
          obtain ⟨main, steps, hstop, hanswered, -, h⟩ := d.leads_runBefore [f] p
          have hruns : ∀ s ∈ steps, (Stage.before entry (f :: fs)).Runs s.callback := by
            refine runs_of_answered hanswered fun s hs => ?_
            have hcallback : s.callback ∈ [Callback.before f.filter] :=
              List.mem_of_mem_take (hstop.1 ▸ List.mem_map_of_mem hs)
            rw [List.mem_singleton.1 hcallback]
            exact .before entry f fs
          have hturn : d.advance ⟨p, path, .before entry (f :: fs)⟩ =
              match d.runBefore [f] p with
              | (none, p) => ⟨p, path, .before entry fs⟩
              | (some r, p) =>
                  ⟨p.enter .afterFilters, path, .after (d.routes.afterFor path) r⟩ := rfl
          rw [hturn]
          generalize d.runBefore [f] p = filtered at h ⊢
          obtain ⟨_ | r, q⟩ := filtered
          · exact ⟨steps, h, hruns⟩
          · refine ⟨steps ++ [], h.trans (leads_enter d q .afterFilters), ?_⟩
            rw [List.append_nil]
            exact hruns
  | after filters r =>
      cases filters with
      | nil => exact ⟨[], .refl d p, List.forall_mem_nil _⟩
      | cons f fs =>
          obtain ⟨main, steps, hmain, hanswered, h⟩ := d.leads_runAfter [f] r p
          refine ⟨steps, h, runs_of_answered hanswered fun s hs => ?_⟩
          have hcallback : s.callback ∈ main.map (·.callback) := List.mem_map_of_mem hs
          rw [hmain] at hcallback
          rw [List.mem_singleton.1 hcallback]
          exact .after f fs r

theorem path_advance (d : Dispatcher σ) (u : Underway σ) : (d.advance u).path = u.path := by
  unfold advance
  split
  · rfl
  · rfl
  · split <;> rfl
  · rfl
  · rfl

theorem moves_advance (d : Dispatcher σ) (u : Underway σ) :
    u.stage.Moves d u.path (d.advance u).stage := by
  obtain ⟨p, path, stage⟩ := u
  cases stage with
  | missed => exact .answered _
  | before entry filters =>
      cases filters with
      | nil => exact .handled entry _
      | cons f fs =>
          unfold advance
          dsimp only
          generalize d.runBefore [f] p = filtered
          obtain ⟨_ | r, q⟩ := filtered
          · exact .passed entry f fs
          · exact .stopped entry f fs r
  | after filters r =>
      cases filters with
      | nil => exact .ended r
      | cons f fs => exact .filtered f fs r _

end Dispatcher

def Underway.share (u : Underway σ) (app : σ) (metrics : Metrics) : Underway σ :=
  { u with passage := { u.passage with run := { u.passage.run with app, metrics } } }

/-- Requests that are dispatched at the same time, and what they share. -/
structure Service (ι σ : Type) where
  app : σ
  metrics : Metrics
  requests : ι → Underway σ

namespace Service

variable {ι : Type}

def start (d : Dispatcher σ) (app : σ) (metrics : Metrics)
    (arrivals : ι → Surroundings σ × Exchange) :
    Service ι σ where
  app := app
  metrics := metrics
  requests i := d.takeUp (arrivals i).1 (arrivals i).2

variable [DecidableEq ι]

def put (s : Service ι σ) (i : ι) (u : Underway σ) : Service ι σ where
  app := u.passage.run.app
  metrics := u.passage.run.metrics
  requests := Function.update s.requests i u

def turn (d : Dispatcher σ) (s : Service ι σ) (i : ι) : Service ι σ :=
  s.put i (d.advance ((s.requests i).share s.app s.metrics))

def after (d : Dispatcher σ) (s : Service ι σ) : List ι → Service ι σ
  | [] => s
  | i :: is => (s.turn d i).after d is

/-- What is kept when a request moves on, and when others change what it shares with them, is kept
of all requests. -/
theorem forall_requests_turn {d : Dispatcher σ} {s : Service ι σ} {P : Underway σ → Prop}
    (hshare : ∀ u app metrics, P u → P (u.share app metrics))
    (hadvance : ∀ u, P u → P (d.advance u))
    (hs : ∀ i, P (s.requests i)) (i j : ι) : P ((s.turn d i).requests j) := by
  by_cases hj : j = i
  · subst hj
    have hput : (s.turn d j).requests j = d.advance ((s.requests j).share s.app s.metrics) :=
      Function.update_self ..
    rw [hput]
    exact hadvance _ (hshare _ s.app s.metrics (hs j))
  · have hput : (s.turn d i).requests j = s.requests j := Function.update_of_ne hj ..
    rw [hput]
    exact hs j

theorem turn_put (d : Dispatcher σ) (s : Service ι σ) (i : ι) (u : Underway σ) :
    (s.put i u).turn d i = s.put i (d.advance u) := by
  have hshare : ((s.put i u).requests i).share (s.put i u).app (s.put i u).metrics = u := by
    have hput : (s.put i u).requests i = u := by
      unfold put
      exact Function.update_self ..
    rw [hput]
    rfl
  rw [turn, hshare]
  unfold put
  rw [Function.update_idem]

/-- Turns of one request that no turn of another comes between. -/
theorem after_replicate (d : Dispatcher σ) (s : Service ι σ) (i : ι) (n : Nat) (u : Underway σ) :
    (s.put i u).after d (List.replicate n i) = s.put i (d.advance^[n] u) := by
  induction n generalizing u with
  | zero => rfl
  | succ n ih => rw [List.replicate_succ, after, turn_put, ih, Function.iterate_succ_apply]

/-- A request that is not disturbed comes to the response that it comes to when it is dispatched
alone, with the state of the application and the metrics as it finds them. -/
theorem exists_after_eq_respond (d : Dispatcher σ) (s : Service ι σ) (i : ι)
    {arrival : Surroundings σ} {x : Exchange} (h : s.requests i = d.takeUp arrival x) :
    ∃ n, s.after d (List.replicate n i) =
      s.put i ⟨(d.respond { arrival with app := s.app, metrics := s.metrics } x).2, x.request.path,
        .after [] (d.respond { arrival with app := s.app, metrics := s.metrics } x).1⟩ := by
  have hshare : (s.requests i).share s.app s.metrics =
      d.takeUp { arrival with app := s.app, metrics := s.metrics } x := by
    rw [h]
    unfold Dispatcher.takeUp
    cases d.routes.route? x.request.method x.request.path with
    | none => rfl
    | some entry => rfl
  obtain ⟨n, hn⟩ :=
    d.exists_iterate_advance_takeUp { arrival with app := s.app, metrics := s.metrics } x
  refine ⟨n + 1, ?_⟩
  rw [List.replicate_succ, after, turn, after_replicate, hshare, ← Function.iterate_succ_apply,
    Function.iterate_succ_apply', hn]
  rfl

end Service

end HttpDispatch
