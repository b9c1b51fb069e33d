import HttpDispatch.Proofs.Dispatcher.Gauge

/-!
# Hooks that are run in pairs

Where the hook that raises the gauge comes before all other filters, and neither hook comes twice, a
request that comes to the second hook has come to the first, and to the second for the first time.
Then every turn is tidy, and the gauge is right whatever turns requests take. So it is if the
middleware that counts is registered once, for all paths, and before any other
(`Service.right_after_of_registered_first`).
-/

namespace HttpDispatch

open Callback (countsStart countsEnd)

variable {σ : Type}

def FilterEntry.AtMostOnce {F : Type} (filter : F) (fs : List (FilterEntry F)) : Prop :=
  fs.Pairwise fun f g => f.filter = filter → g.filter ≠ filter

/-- For no path is one of the hooks there twice, and where the second is, the first comes before all
filters. -/
structure Dispatcher.CountsInPairs (d : Dispatcher σ) : Prop where
  before : ∀ path, FilterEntry.AtMostOnce Middleware.counting.before (d.routes.beforeFor path)
  after : ∀ path, FilterEntry.AtMostOnce Middleware.counting.afterFilter (d.routes.afterFor path)
  first : ∀ path, ∀ f ∈ d.routes.afterFor path, f.filter = Middleware.counting.afterFilter →
    ∃ e es, d.routes.beforeFor path = e :: es ∧ e.filter = Middleware.counting.before

namespace Underway

/-- Neither hook is before the request a second time, and the second is before it only if the first
is, in the next turn, or if the request is inside. -/
structure Paired (d : Dispatcher σ) (u : Underway σ) : Prop where
  before : ∀ entry fs, u.stage = .before entry fs →
    FilterEntry.AtMostOnce Middleware.counting.before fs ∧
      (countsStart ∈ u.callbacks → ∀ f ∈ fs, f.filter ≠ Middleware.counting.before) ∧
      ∀ f ∈ d.routes.afterFor u.path, f.filter = Middleware.counting.afterFilter →
        countsStart ∈ u.callbacks ∨ u.stage.Runs countsStart
  after : ∀ fs r, u.stage = .after fs r →
    FilterEntry.AtMostOnce Middleware.counting.afterFilter fs ∧
      ∀ f ∈ fs, f.filter = Middleware.counting.afterFilter → u.Inside

variable {d : Dispatcher σ} {u : Underway σ}

theorem countsStart_mem_advance_iff (d : Dispatcher σ) (u : Underway σ) :
    countsStart ∈ (d.advance u).callbacks ↔ countsStart ∈ u.callbacks ∨
      u.stage.Runs countsStart := by
  constructor
  · intro hmem
    obtain ⟨cs, hcallbacks, hruns⟩ := callbacks_advance d u
    rw [hcallbacks, List.mem_append] at hmem
    exact hmem.imp_right (hruns _)
  · rintro (hbehind | hruns)
    · obtain ⟨cs, hcallbacks, -⟩ := callbacks_advance d u
      rw [hcallbacks]
      exact List.mem_append_left cs hbehind
    · obtain ⟨hcallbacks, -⟩ := advance_of_countsStart d hruns
      rw [hcallbacks]
      exact List.mem_append_right _ List.mem_cons_self

theorem paired_takeUp (hd : d.CountsInPairs) (s : Surroundings σ) (x : Exchange) :
    (d.takeUp s x).Paired d := by
  unfold Dispatcher.takeUp
  cases d.routes.route? x.request.method x.request.path with
  | none => exact ⟨fun _ _ => nofun, fun _ _ => nofun⟩
  | some entry =>
      refine ⟨?_, fun _ _ => nofun⟩
      rintro entry fs ⟨⟩
      refine ⟨hd.before _, nofun, fun f hf hfilter => .inr ?_⟩
      obtain ⟨e, es, hbefore, he⟩ := hd.first _ f hf hfilter
      dsimp only
      rw [hbefore, countsStart, ← he]
      exact .before entry e es

/-- A request that comes to the filters after its handler is inside, if one of them is the second
hook. -/
theorem Paired.advance_of_before (hd : d.CountsInPairs) (hu : u.Sound d) (h : u.Paired d)
    {entry : RouteEntry (Handler σ)} {fs : List (FilterEntry (BeforeFilter σ))}
    (hstage : u.stage = .before entry fs) :
    FilterEntry.AtMostOnce Middleware.counting.afterFilter (d.routes.afterFor u.path) ∧
      ∀ f ∈ d.routes.afterFor u.path, f.filter = Middleware.counting.afterFilter →
        (d.advance u).Inside := by
  obtain ⟨-, -, hfirst⟩ := h.before entry fs hstage
  refine ⟨hd.after u.path, fun f hf hfilter => ⟨?_, hu.countsEnd_notMem_advance hstage⟩⟩
  exact (countsStart_mem_advance_iff d u).2 (hfirst f hf hfilter)

theorem Paired.advance (hd : d.CountsInPairs) (hu : u.Sound d) (h : u.Paired d) :
    (d.advance u).Paired d := by
  have hmoves := d.moves_advance u
  have hpath := d.path_advance u
  have hstart := countsStart_mem_advance_iff d u
  refine ⟨fun entry fs hstage => ?_, fun fs r hstage => ?_⟩
  · rw [hstage] at hmoves
    rw [hpath]
    generalize hbefore : u.stage = stage at hmoves
    cases hmoves with
    | passed entry f fs =>
        obtain ⟨honce, hbehind, hfirst⟩ := h.before entry _ hbefore
        obtain ⟨hf, hfs⟩ := List.pairwise_cons.1 honce
        refine ⟨hfs, fun hmem g hg => ?_, fun g hg hfilter => .inl (hstart.2 (hfirst g hg hfilter))⟩
        obtain hmem | hruns := hstart.1 hmem
        · exact hbehind hmem g (List.mem_cons_of_mem f hg)
        · obtain ⟨_, e, _, hstage, he⟩ := exists_before_of_runs hruns
          cases hbefore.symm.trans hstage
          exact hf g hg he
  · rw [hstage] at hmoves
    generalize hbefore : u.stage = stage at hmoves
    cases hmoves with
    | answered r => exact ⟨.nil, List.forall_mem_nil _⟩
    | stopped entry f fs r => exact h.advance_of_before hd hu hbefore
    | handled entry r => exact h.advance_of_before hd hu hbefore
    | filtered f fs r r' =>
        obtain ⟨honce, hinside⟩ := h.after _ r hbefore
        obtain ⟨hf, hfs⟩ := List.pairwise_cons.1 honce
        refine ⟨hfs, fun g hg hfilter => ?_⟩
        have hnotStart : ¬ u.stage.Runs countsStart := by
          intro hruns
          obtain ⟨_, _, _, hstage, -⟩ := exists_before_of_runs hruns
          cases hbefore.symm.trans hstage
        have hnotEnd : ¬ u.stage.Runs countsEnd := by
          intro hruns
          obtain ⟨e, _, _, hstage, he⟩ := exists_after_of_runs hruns
          cases hbefore.symm.trans hstage
          exact hf g hg he hfilter
        exact (inside_advance_iff d hnotStart hnotEnd).2
          (hinside g (List.mem_cons_of_mem f hg) hfilter)
    | ended r => exact ⟨.nil, List.forall_mem_nil _⟩

theorem Paired.share (h : u.Paired d) (app : σ) (metrics : Metrics) :
    (u.share app metrics).Paired d :=
  ⟨h.before, h.after⟩

end Underway

namespace Service

variable {ι : Type} {d : Dispatcher σ} {s : Service ι σ}

theorem tidy_of_paired {i : ι} (h : (s.requests i).Paired d) : s.Tidy i where
  raises hruns := by
    obtain ⟨entry, e, fs, hstage, he⟩ := Underway.exists_before_of_runs hruns
    obtain ⟨-, hbehind, -⟩ := h.before entry _ hstage
    exact fun hi => hbehind hi.1 e List.mem_cons_self he
  lowers hruns := by
    obtain ⟨e, fs, r, hstage, he⟩ := Underway.exists_after_of_runs hruns
    obtain ⟨-, hinside⟩ := h.after _ r hstage
    exact .inl (hinside e List.mem_cons_self he)

variable [DecidableEq ι]

theorem sound_and_paired_turn (hd : d.CountsInPairs)
    (hs : ∀ i, (s.requests i).Sound d ∧ (s.requests i).Paired d) (i j : ι) :
    ((s.turn d i).requests j).Sound d ∧ ((s.turn d i).requests j).Paired d :=
  forall_requests_turn (P := fun u => u.Sound d ∧ u.Paired d)
    (fun _ app metrics h => ⟨h.1.share app metrics, h.2.share app metrics⟩)
    (fun _ h => ⟨h.1.advance, h.2.advance hd h.1⟩) hs i j

variable [Finite ι]

theorem right_after_of_paired (hd : d.OnlyCounts) (hpairs : d.CountsInPairs)
    (hcard : Nat.card ι < UInt64.size) (hs : ∀ i, (s.requests i).Sound d ∧ (s.requests i).Paired d)
    (hright : s.Right) (is : List ι) : (s.after d is).Right := by
  induction is generalizing s with
  | nil => exact hright
  | cons i is ih =>
      have hturn := (right_turn_iff hd hcard (hs i).1 hright).2 (tidy_of_paired (hs i).2)
      exact ih (sound_and_paired_turn hpairs hs i) hturn

/-- Where the hooks are run in pairs, the gauge is right after any turns. -/
theorem right_after_of_countsInPairs (hd : d.OnlyCounts) (hpairs : d.CountsInPairs)
    (hcard : Nat.card ι < UInt64.size) (app : σ) {metrics : Metrics} (hzero : metrics.inFlight = 0)
    (arrivals : ι → Surroundings σ × Exchange) (is : List ι) :
    ((start d app metrics arrivals).after d is).Right :=
  right_after_of_paired hd hpairs hcard
    (fun i => ⟨Underway.sound_takeUp hd (arrivals i).1 (arrivals i).2,
      Underway.paired_takeUp hpairs (arrivals i).1 (arrivals i).2⟩)
    (right_start d app hzero arrivals) is

end Service

/-!
## The middleware that counts, before any other
-/

def Registration.LeavesMetrics : RoutesRegistration σ → Prop
  | .route _ _ _ h => h.LeavesMetrics
  | .before _ f => f.LeavesMetrics
  | .after _ f => ∀ r, (f r).LeavesMetrics
  | .around _ b a => b.LeavesMetrics ∧ ∀ r, (a r).LeavesMetrics

theorem Registration.LeavesMetrics.onlyCounts {r : RoutesRegistration σ} (h : r.LeavesMetrics) :
    r.OnlyCounts := by
  cases r with
  | route v path roles handler => exact h
  | before raw f => exact .inr h
  | after raw f => exact .inr h
  | around raw b a => exact ⟨.inr h.1, .inr h.2⟩

namespace RouteTable

variable {H B A : Type} {strict : Bool} {cap : Nat} {rs : List (Registration H B A)}

/-- Filters that are registered first, for all paths, are the first that are chosen. -/
theorem filtersFor_around_cons (b : B) (a : A) (path : String) :
    ((empty strict cap).registerValid (.around none b a :: rs)).beforeFor path =
        ⟨none, b⟩ :: ((empty strict cap).registerValid rs).beforeFor path ∧
      ((empty strict cap).registerValid (.around none b a :: rs)).afterFor path =
        ⟨none, a⟩ :: ((empty strict cap).registerValid rs).afterFor path := by
  obtain ⟨hbefore, hafter⟩ :=
    Registration.filtersFor_registerValid strict cap (.around none b a :: rs) path
  obtain ⟨hbefore', hafter'⟩ := Registration.filtersFor_registerValid strict cap rs path
  rw [hbefore, hafter, hbefore', hafter']
  exact Registration.filtersFor_append_around [] rs b a path

end RouteTable

namespace Dispatcher

variable {d : Dispatcher σ} {strict : Bool} {cap : Nat} {rs : List (RoutesRegistration σ)}

theorem countsInPairs_of_registered_first
    (hroutes : d.routes = (RouteTable.empty strict cap).registerValid
      (.around none Middleware.counting.before Middleware.counting.afterFilter :: rs))
    (hrs : ∀ r ∈ rs, r.LeavesMetrics) : d.CountsInPairs := by
  have hbefore : ∀ path, ∀ f ∈ ((RouteTable.empty strict cap).registerValid rs).beforeFor path,
      f.filter ≠ Middleware.counting.before := by
    intro path f hf heq
    refine Middleware.not_leavesMetrics_before_counting (σ := σ) (heq ▸ ?_)
    obtain ⟨raw, hr | ⟨a, hr⟩⟩ := RouteTable.exists_registration_of_mem_beforeFor hf
    · exact hrs _ hr
    · exact (hrs _ hr).1
  have hafter : ∀ path, ∀ f ∈ ((RouteTable.empty strict cap).registerValid rs).afterFor path,
      f.filter ≠ Middleware.counting.afterFilter := by
    intro path f hf heq
    refine Middleware.not_leavesMetrics_afterFilter_counting (σ := σ) {} (heq ▸ ?_)
    obtain ⟨raw, hr | ⟨b, hr⟩⟩ := RouteTable.exists_registration_of_mem_afterFor hf
    · exact hrs _ hr {}
    · exact (hrs _ hr).2 {}
  refine ⟨fun path => ?_, fun path => ?_, fun path _ _ _ => ?_⟩
  · rw [hroutes, (RouteTable.filtersFor_around_cons _ _ path).1]
    refine List.pairwise_cons.2 ⟨fun g hg _ => hbefore path g hg, ?_⟩
    exact List.pairwise_of_forall_mem_list fun f _ g hg _ => hbefore path g hg
  · rw [hroutes, (RouteTable.filtersFor_around_cons _ _ path).2]
    refine List.pairwise_cons.2 ⟨fun g hg _ => hafter path g hg, ?_⟩
    exact List.pairwise_of_forall_mem_list fun f _ g hg _ => hafter path g hg
  · exact ⟨_, _, hroutes ▸ (RouteTable.filtersFor_around_cons _ _ path).1, rfl⟩

end Dispatcher

/-- If the middleware that counts is registered before any other filter, for all paths, and nothing
else changes the metrics, the gauge shows after any turns how many requests are past the one hook
and not yet past the other. -/
theorem Service.right_after_of_registered_first {ι : Type} [DecidableEq ι] [Finite ι]
    {d : Dispatcher σ} {strict : Bool} {cap : Nat} {rs : List (RoutesRegistration σ)}
    (hroutes : d.routes = (RouteTable.empty strict cap).registerValid
      (.around none Middleware.counting.before Middleware.counting.afterFilter :: rs))
    (hrs : ∀ r ∈ rs, r.LeavesMetrics)
    (haccess : ∀ allow ∈ d.access, ∀ roles, (allow roles).LeavesMetrics)
    (herror : ∀ c h, (c, h) ∈ d.errorHandlers.entries → ∀ e, (h e).LeavesMetrics)
    (hcard : Nat.card ι < UInt64.size) (app : σ) {metrics : Metrics} (hzero : metrics.inFlight = 0)
    (arrivals : ι → Surroundings σ × Exchange) (is : List ι) :
    ((start d app metrics arrivals).after d is).Right := by
  have honly : d.OnlyCounts := by
    refine Dispatcher.onlyCounts_of_registrations hroutes ?_ haccess herror
    exact List.forall_mem_cons.2 ⟨⟨.inl rfl, .inl rfl⟩, fun r hr => (hrs r hr).onlyCounts⟩
  have hpairs := Dispatcher.countsInPairs_of_registered_first hroutes hrs
  exact right_after_of_countsInPairs honly hpairs hcard app hzero arrivals is

end HttpDispatch
