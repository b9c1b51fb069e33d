import HttpDispatch.Middleware
import HttpDispatch.Proofs.Metrics
import HttpDispatch.Proofs.Program.Route

/-!
# What programs do to the metrics

There is one call that changes the metrics, and a program that never makes it leaves them as they
are, whatever else it does and however it ends (`Program.metrics_run`). One that makes it only for
routes to become known changes no counter (`Program.growsTo_run`). The hooks that count requests
always end well; each of them changes the metrics in one step.
-/

namespace HttpDispatch

variable {σ α : Type}

/-- Any other call than the one that changes the metrics. -/
def Call.LeavesMetrics (c : Call σ) : Prop := ∀ f, c ≠ .modifyMetrics f

/-- The call changes no counter: at most, it makes routes known. -/
def Call.LeavesCounters (c : Call σ) : Prop :=
  ∀ f, c = .modifyMetrics f → ∀ m : Metrics, m.GrowsTo (f m)

def Program.LeavesMetrics : Program σ α → Prop
  | done _ | fail _ | panic _ => True
  | call c next => c.LeavesMetrics ∧ ∀ answer, (next answer).LeavesMetrics
  | callRoute next => ∀ answer, (next answer).LeavesMetrics

namespace Run

theorem metrics_dropStream (r : Run σ) : r.dropStream.metrics = r.metrics := by
  unfold dropStream
  split <;> rfl

theorem metrics_onContext {ε : Type} (r : Run σ) (f : Context → Attempt Context ε α) :
    (r.onContext f).2.metrics = r.metrics :=
  r.metrics_dropStream

theorem metrics_onStream (r : Run σ) (f : ResponseStream → Exchange → ResponseStream.On α) :
    (r.onStream f).2.metrics = r.metrics := by
  unfold onStream
  split <;> rfl

theorem metrics_openStream (r : Run σ) : r.openStream.2.metrics = r.metrics := by
  unfold openStream
  dsimp only
  split
  · exact r.metrics_dropStream
  · exact r.metrics_dropStream

theorem metrics_onEvents (r : Run σ) (n : Nat) (dflt : α)
    (f : EventStream (σ → σ) → α × EventStream (σ → σ)) :
    (r.onEvents n dflt f).2.metrics = r.metrics := by
  unfold onEvents
  split <;> rfl

theorem metrics_callElsewhere (n : Nat) (others : List (NotedCall σ)) (r : Run σ) :
    (r.callElsewhere n others).metrics = r.metrics := by
  induction others generalizing r with
  | nil => exact r.metrics_onEvents n _ _
  | cons c cs ih =>
      have hcall : (r.callEvents n c.call).2.metrics = r.metrics := r.metrics_onEvents n _ _
      exact (ih _).trans hcall

theorem metrics_dropEvents (r : Run σ) (n : Nat) : (r.dropEvents n).metrics = r.metrics := by
  unfold dropEvents
  split
  · exact r.metrics_onEvents n _ _
  · rfl

theorem metrics_keepAlive (r : Run σ) (n : Nat) (others : List (NotedCall σ)) :
    (r.keepAlive n others).metrics = r.metrics := by
  unfold keepAlive
  exact (metrics_dropEvents _ n).trans (metrics_callElsewhere n others _)

theorem metrics_openEvents (r : Run σ) : r.openEvents.2.metrics = r.metrics := by
  have hopened := r.metrics_onContext (Context.openEvents (κ := σ → σ))
  unfold openEvents
  generalize r.onContext (Context.openEvents (κ := σ → σ)) = opened at hopened ⊢
  obtain ⟨e | stream, r₁⟩ := opened
  · exact hopened
  · exact hopened

theorem metrics_perform (r : Run σ) {c : Call σ} (hc : c.LeavesMetrics) :
    (r.perform c).2.metrics = r.metrics := by
  cases c with
  | view => exact r.metrics_dropStream
  | streamDrop => exact r.metrics_dropStream
  | setAttributes a => exact r.metrics_dropStream
  | bodyBytes => exact r.metrics_onContext _
  | bodyJson => exact r.metrics_onContext _
  | setStatus s => exact r.metrics_onContext _
  | setField n v => exact r.metrics_onContext _
  | serveRange source total contentType => exact r.metrics_onContext _
  | openStream => exact r.metrics_openStream
  | openEvents => exact r.metrics_openEvents
  | streamWrite b => exact r.metrics_onStream _
  | streamWriteAll b => exact r.metrics_onStream _
  | streamFlush => exact r.metrics_onStream _
  | streamFinish => exact r.metrics_onStream _
  | events n c => exact r.metrics_onEvents n _ _
  | keepAlive n others => exact r.metrics_keepAlive n others
  | dropEvents n => exact r.metrics_dropEvents n
  | modifyMetrics f => exact absurd rfl (hc f)
  | modify f => rfl
  | report e => rfl
  | streamView => rfl
  | eventsClosed n => rfl
  | get => rfl
  | metrics => rfl
  | elapsed => rfl

end Run

theorem Call.keeps_metrics (m : Metrics) :
    Call.Keeps Call.LeavesMetrics fun r : Run σ => r.metrics = m where
  perform r _ hc hr := (r.metrics_perform hc).trans hr
  streamDrop := nofun
  dropEvents _ := nofun

theorem Run.metrics_settle (r : Run σ) (first : Nat) : (r.settle first).metrics = r.metrics :=
  (Call.keeps_metrics r.metrics).settle rfl first

namespace Program

theorem leavesMetrics_iff_makes {p : Program σ α} :
    p.LeavesMetrics ↔ p.Makes Call.LeavesMetrics := by
  induction p with
  | done a => exact Iff.rfl
  | fail e => exact Iff.rfl
  | panic m => exact Iff.rfl
  | call c next ih => exact and_congr_right fun _ => forall_congr' ih
  | callRoute next ih => exact forall_congr' ih

/-- A program that leaves the metrics as they are may call the handler of the route if that does,
too. -/
theorem metrics_run {handler : Option (Handler σ)} (hh : ∀ h ∈ handler, h.LeavesMetrics)
    {p : Program σ α} (hp : p.LeavesMetrics) (r : Run σ) :
    (p.run handler r).2.metrics = r.metrics :=
  Makes.holds_run (Call.keeps_metrics r.metrics)
    (fun h hmem => leavesMetrics_iff_makes.1 (hh h hmem)) (leavesMetrics_iff_makes.1 hp) rfl

end Program

theorem Call.keeps_growsTo (m : Metrics) :
    Call.Keeps Call.LeavesCounters fun r : Run σ => m.GrowsTo r.metrics where
  perform r c hc hr := by
    by_cases hleaves : c.LeavesMetrics
    · rw [r.metrics_perform hleaves]
      exact hr
    · obtain ⟨f, hf⟩ := not_forall_not.1 hleaves
      subst hf
      exact hr.trans (hc f rfl r.metrics)
  streamDrop := nofun
  dropEvents _ := nofun

/-- A program that changes no counter may call the handler of the route if that changes none,
either. -/
theorem Program.growsTo_run {handler : Option (Handler σ)}
    (hh : ∀ h ∈ handler, h.Makes Call.LeavesCounters) {p : Program σ α}
    (hp : p.Makes Call.LeavesCounters) (r : Run σ) :
    r.metrics.GrowsTo (p.run handler r).2.metrics :=
  hp.holds_run (Call.keeps_growsTo r.metrics) hh (.refl _)

namespace Middleware

theorem run_before_counting (handler : Option (Handler σ)) (r : Run σ) :
    ∃ r', counting.before.run handler r = (.ok .proceed, r') ∧ r'.metrics = r.metrics.started :=
  ⟨_, rfl, Run.metrics_settle { r with metrics := r.metrics.started } _⟩

theorem run_afterFilter_counting (handler : Option (Handler σ)) (response : Response) (r : Run σ) :
    ∃ r' status nanos, (counting.afterFilter response).run handler r = (.ok response, r') ∧
      r'.metrics = r.metrics.finished status nanos (r.route.map (·.pattern.template)) := by
  have hview : (r.perform .view).2.metrics = r.metrics := r.metrics_dropStream
  have hroute : (r.perform .view).2.route = r.route := r.route_dropStream
  unfold Program.run Program.runAndSettle
  generalize Program.runRoute handler r.nesting.depth = route
  obtain ⟨r₁, status, nanos, hrun, hmetrics⟩ :
      ∃ r₁ status nanos, (counting.afterFilter response).runWith route r = (.ok response, r₁) ∧
        r₁.metrics = r.metrics.finished status nanos (r.route.map (·.pattern.template)) := by
    rw [← hview, ← hroute]
    simp only [afterFilter, counting, bind, Program.bind, Program.elapsed, Program.view,
      Program.metrics, Program.ask, Program.runWith]
    split
    · exact ⟨_, _, _, rfl, rfl⟩
    · exact ⟨_, _, _, rfl, rfl⟩
  exact ⟨_, status, nanos, by rw [hrun], (Run.metrics_settle r₁ _).trans hmetrics⟩

theorem not_leavesMetrics_before_counting : ¬ (counting.before : BeforeFilter σ).LeavesMetrics :=
  fun h => h.1 _ rfl

theorem not_leavesMetrics_afterFilter_counting (response : Response) :
    ¬ (counting.afterFilter response : Program σ Response).LeavesMetrics := by
  intro h
  simp only [afterFilter, counting, bind, Program.bind, Program.elapsed, Program.view,
    Program.metrics, Program.ask, Program.LeavesMetrics] at h
  obtain ⟨-, hview⟩ := h
  obtain ⟨-, hmetrics⟩ := hview (0 : Nat)
  let v : View :=
    { id := ⟨0⟩, request := { method := .get, path := "/" }, route := none, phase := .handler,
      settings := {}, status := .ok, pending := .empty, headersSent := false, attributes := {} }
  obtain ⟨-, hmodify⟩ := hmetrics v
  exact (hmodify { inFlight := 1 }).1 _ rfl

end Middleware

end HttpDispatch
