import HttpDispatch.Proofs.Dispatcher.Concurrent
import HttpDispatch.Proofs.Program.Metrics
import HttpDispatch.Proofs.Route.Scan
import HttpDispatch.Proofs.Route.Scope
import Mathlib.Data.Set.Card

/-!
# The gauge of requests that are being handled

One hook raises the gauge before the handler of a request, another lowers it afterwards. A filter
that comes before the first and stops a request keeps it from that hook, but not from the other one.

The gauge is right as long as it shows how many requests are past the one hook and not yet past the
other (`Service.Right`). A turn leaves it right if and only if the turn is tidy (`Service.Tidy`),
and so does a row of turns (`Service.right_after_start_iff`).
-/

namespace HttpDispatch

variable {σ : Type}

namespace Callback

def countsStart : Callback σ := .before Middleware.counting.before

def countsEnd : Callback σ := .after Middleware.counting.afterFilter

def LeavesMetrics (d : Dispatcher σ) : Callback σ → Prop
  | before f => f.LeavesMetrics
  | access roles => ∀ allow ∈ d.access, (allow roles).LeavesMetrics
  | handler h => h.LeavesMetrics
  | after f => ∀ r, (f r).LeavesMetrics
  | errorHandler c e => ∀ h, d.errorHandlers.find? e.category = some (c, h) → (h e).LeavesMetrics

end Callback

open Callback (countsStart countsEnd)

/-- Whatever else the application does, the metrics are changed by the two hooks only. -/
structure Dispatcher.OnlyCounts (d : Dispatcher σ) : Prop where
  before : ∀ path, ∀ f ∈ d.routes.beforeFor path,
    f.filter = Middleware.counting.before ∨ f.filter.LeavesMetrics
  access : ∀ allow ∈ d.access, ∀ roles, (allow roles).LeavesMetrics
  handler : ∀ method path entry, d.routes.route? method path = some entry →
    entry.handler.LeavesMetrics
  after : ∀ path, ∀ f ∈ d.routes.afterFor path,
    f.filter = Middleware.counting.afterFilter ∨ ∀ r, (f.filter r).LeavesMetrics
  errorHandler : ∀ c h, (c, h) ∈ d.errorHandlers.entries → ∀ e, (h e).LeavesMetrics

def Registration.OnlyCounts : RoutesRegistration σ → Prop
  | .route _ _ _ h => h.LeavesMetrics
  | .before _ f => f = Middleware.counting.before ∨ f.LeavesMetrics
  | .after _ f => f = Middleware.counting.afterFilter ∨ ∀ r, (f r).LeavesMetrics
  | .around _ b a => (b = Middleware.counting.before ∨ b.LeavesMetrics) ∧
      (a = Middleware.counting.afterFilter ∨ ∀ r, (a r).LeavesMetrics)

namespace Dispatcher

variable {d : Dispatcher σ} {strict : Bool} {cap : Nat} {rs : List (RoutesRegistration σ)}

/-- It suffices to look at what is registered, and at those who are asked for roles and
for errors. -/
theorem onlyCounts_of_registrations
    (hroutes : d.routes = (RouteTable.empty strict cap).registerValid rs)
    (hrs : ∀ r ∈ rs, r.OnlyCounts)
    (haccess : ∀ allow ∈ d.access, ∀ roles, (allow roles).LeavesMetrics)
    (herror : ∀ c h, (c, h) ∈ d.errorHandlers.entries → ∀ e, (h e).LeavesMetrics) :
    d.OnlyCounts := by
  refine ⟨fun path f hf => ?_, haccess, fun m path entry h => ?_, fun path f hf => ?_, herror⟩
  · rw [hroutes] at hf
    obtain ⟨raw, hr | ⟨a, hr⟩⟩ := RouteTable.exists_registration_of_mem_beforeFor hf
    · exact hrs _ hr
    · exact (hrs _ hr).1
  · rw [hroutes] at h
    obtain ⟨v, raw, roles, hr⟩ := RouteTable.exists_registration_of_route? h
    exact hrs _ hr
  · rw [hroutes] at hf
    obtain ⟨raw, hr | ⟨b, hr⟩⟩ := RouteTable.exists_registration_of_mem_afterFor hf
    · exact hrs _ hr
    · exact (hrs _ hr).2

end Dispatcher

namespace Journal

variable {d : Dispatcher σ} {route : Option (Handler σ)} {r r' : Run σ}

theorem Ran.metrics_eq (hroute : ∀ h ∈ route, h.LeavesMetrics) {c : Callback σ} {course : Course}
    (h : Ran d route c r course r') (hc : c.LeavesMetrics d) : r'.metrics = r.metrics := by
  cases h with
  | before f r => exact Program.metrics_run hroute hc r
  | access allow roles r ha => exact Program.metrics_run hroute (hc allow ha) r
  | handler h r => exact Program.metrics_run hroute hc r
  | after f response r => exact Program.metrics_run hroute (hc response) r
  | errorHandler c e h r hh => exact Program.metrics_run hroute (hc h hh) r

theorem Tells.metrics_eq (hroute : ∀ h ∈ route, h.LeavesMetrics) {steps : List (Step σ)}
    (h : Tells d route r steps r') (hsteps : ∀ s ∈ steps, s.callback.LeavesMetrics d) :
    r'.metrics = r.metrics := by
  induction h with
  | nil hbare => exact (congrArg Run.metrics hbare :).symm
  | cons hbare ran _ _ ih =>
      obtain ⟨hs, hrest⟩ := List.forall_mem_cons.1 hsteps
      have hnotes := (congrArg Run.metrics hbare :)
      exact (ih hrest).trans ((ran.metrics_eq hroute hs).trans hnotes.symm)

end Journal

namespace Passage

theorem invoke_of_ok {α : Type} {p : Passage σ} {program : Program σ α} {a : α} {r : Run σ}
    (h : program.run p.handler p.run = (.ok a, r)) (c : Callback σ) (course : α → Course) :
    p.invoke c course program = (.ok a, { p with run := r }.enterStep c (course a)) := by
  rw [invoke, h]

end Passage

namespace Underway

def callbacks (u : Underway σ) : List (Callback σ) := u.passage.journal.map (·.callback)

/-- The request is past the one hook, and not yet past the other. -/
def Inside (u : Underway σ) : Prop := countsStart ∈ u.callbacks ∧ countsEnd ∉ u.callbacks

/-- What the request has before it is what `d` has for it. -/
structure Sound (d : Dispatcher σ) (u : Underway σ) : Prop where
  handler : ∀ h ∈ u.passage.handler, h.LeavesMetrics
  before : ∀ entry fs, u.stage = .before entry fs →
    entry.handler.LeavesMetrics ∧ fs ⊆ d.routes.beforeFor u.path ∧ countsEnd ∉ u.callbacks
  after : ∀ fs r, u.stage = .after fs r → fs ⊆ d.routes.afterFor u.path

variable {d : Dispatcher σ} {u : Underway σ}

theorem exists_before_of_runs {stage : Stage σ} {f : BeforeFilter σ} (h : stage.Runs (.before f)) :
    ∃ entry e fs, stage = .before entry (e :: fs) ∧ e.filter = f := by
  generalize hc : Callback.before f = c at h
  cases h with
  | before entry e fs =>
      cases hc
      exact ⟨entry, e, fs, rfl, rfl⟩
  | _ => cases hc

theorem exists_after_of_runs {stage : Stage σ} {f : AfterFilter σ} (h : stage.Runs (.after f)) :
    ∃ e fs r, stage = .after (e :: fs) r ∧ e.filter = f := by
  generalize hc : Callback.after f = c at h
  cases h with
  | after e fs r =>
      cases hc
      exact ⟨e, fs, r, rfl, rfl⟩
  | _ => cases hc

theorem Sound.leavesMetrics (hd : d.OnlyCounts) (hu : u.Sound d) {c : Callback σ}
    (hc : u.stage.Runs c) (hstart : c ≠ countsStart) (hend : c ≠ countsEnd) :
    c.LeavesMetrics d := by
  cases c with
  | before f =>
      obtain ⟨entry, e, fs, hstage, rfl⟩ := exists_before_of_runs hc
      obtain ⟨-, hfs, -⟩ := hu.before entry _ hstage
      exact (hd.before u.path e (hfs List.mem_cons_self)).resolve_left fun h =>
        hstart (congrArg _ h)
  | after f =>
      obtain ⟨e, fs, r, hstage, rfl⟩ := exists_after_of_runs hc
      have hfs := hu.after _ r hstage
      exact (hd.after u.path e (hfs List.mem_cons_self)).resolve_left fun h => hend (congrArg _ h)
  | access roles => exact fun allow ha => hd.access allow ha roles
  | handler h =>
      generalize hstage : u.stage = stage at hc
      cases hc
      exact (hu.before _ _ hstage).1
  | errorHandler c e =>
    exact fun h hh => hd.errorHandler c h (ErrorHandlers.mem_entries_of_find? hh) e

theorem callbacks_advance (d : Dispatcher σ) (u : Underway σ) :
    ∃ cs, (d.advance u).callbacks = u.callbacks ++ cs ∧ ∀ c ∈ cs, u.stage.Runs c := by
  obtain ⟨steps, hleads, hruns⟩ := d.leads_advance u
  refine ⟨steps.map (·.callback), ?_, ?_⟩
  · rw [callbacks, hleads.journal, List.map_append, callbacks]
  · intro c hc
    obtain ⟨s, hs, rfl⟩ := List.mem_map.1 hc
    exact hruns s hs

theorem Sound.metrics_advance (hd : d.OnlyCounts) (hu : u.Sound d)
    (hstart : ¬ u.stage.Runs countsStart) (hend : ¬ u.stage.Runs countsEnd) :
    (d.advance u).passage.run.metrics = u.passage.run.metrics := by
  obtain ⟨steps, hleads, hruns⟩ := d.leads_advance u
  refine hleads.tells.metrics_eq hu.handler fun s hs => hu.leavesMetrics hd (hruns s hs) ?_ ?_
  · exact fun h => hstart (h ▸ hruns s hs)
  · exact fun h => hend (h ▸ hruns s hs)

theorem advance_of_countsStart (d : Dispatcher σ) (h : u.stage.Runs countsStart) :
    (d.advance u).callbacks = u.callbacks ++ [countsStart] ∧
      (d.advance u).passage.run.metrics = u.passage.run.metrics.started := by
  obtain ⟨entry, f, fs, hstage, hf⟩ := exists_before_of_runs h
  obtain ⟨r, hrun, hmetrics⟩ := Middleware.run_before_counting u.passage.handler u.passage.run
  have hturn : d.runBefore [f] u.passage =
      (none, { u.passage with run := r }.enterStep countsStart .continued) := by
    rw [Dispatcher.runBefore, hf, Passage.invoke_of_ok hrun]
    rfl
  unfold Dispatcher.advance
  rw [hstage]
  dsimp only
  rw [hturn]
  refine ⟨?_, hmetrics⟩
  rw [callbacks, callbacks]
  exact List.map_append

theorem advance_of_countsEnd (d : Dispatcher σ) (h : u.stage.Runs countsEnd) :
    (d.advance u).callbacks = u.callbacks ++ [countsEnd] ∧
      ∃ status nanos template,
        (d.advance u).passage.run.metrics =
          u.passage.run.metrics.finished status nanos template := by
  obtain ⟨f, fs, response, hstage, hf⟩ := exists_after_of_runs h
  obtain ⟨r, status, nanos, hrun, hmetrics⟩ :=
    Middleware.run_afterFilter_counting u.passage.handler response u.passage.run
  have hturn : d.runAfter [f] response u.passage =
      (response, { u.passage with run := r }.enterStep countsEnd .continued) := by
    rw [Dispatcher.runAfter, hf, Passage.invoke_of_ok hrun]
    rfl
  unfold Dispatcher.advance
  rw [hstage]
  dsimp only
  rw [hturn]
  refine ⟨?_, status, nanos, _, hmetrics⟩
  rw [callbacks, callbacks]
  exact List.map_append

/-- The hook that lowers the gauge is not run as long as filters before the handler are. -/
theorem Sound.countsEnd_notMem_advance (hu : u.Sound d) {entry : RouteEntry (Handler σ)}
    {fs : List (FilterEntry (BeforeFilter σ))} (hstage : u.stage = .before entry fs) :
    countsEnd ∉ (d.advance u).callbacks := by
  obtain ⟨cs, hcallbacks, hruns⟩ := callbacks_advance d u
  obtain ⟨-, -, hend⟩ := hu.before entry fs hstage
  rw [hcallbacks, List.mem_append, not_or]
  refine ⟨hend, fun hmem => ?_⟩
  obtain ⟨_, _, _, hafter, -⟩ := exists_after_of_runs (hruns _ hmem)
  cases hstage.symm.trans hafter

theorem Sound.advance (hu : u.Sound d) : (d.advance u).Sound d := by
  obtain ⟨steps, hleads, -⟩ := d.leads_advance u
  have hmoves := d.moves_advance u
  have hpath := d.path_advance u
  refine ⟨hleads.handler ▸ hu.handler, fun entry fs hstage => ?_, fun fs r hstage => ?_⟩
  · rw [hstage] at hmoves
    generalize hbefore : u.stage = stage at hmoves
    cases hmoves with
    | passed entry f fs =>
        obtain ⟨hhandler, hfs, -⟩ := hu.before entry _ hbefore
        exact ⟨hhandler, hpath ▸ List.subset_of_cons_subset hfs,
          hu.countsEnd_notMem_advance hbefore⟩
  · rw [hstage] at hmoves
    rw [hpath]
    generalize hbefore : u.stage = stage at hmoves
    cases hmoves with
    | answered r => exact List.nil_subset _
    | stopped entry f fs r => exact List.Subset.refl _
    | handled entry r => exact List.Subset.refl _
    | filtered f fs r r' => exact List.subset_of_cons_subset (hu.after _ r hbefore)
    | ended r => exact List.nil_subset _

theorem sound_takeUp (hd : d.OnlyCounts) (s : Surroundings σ) (x : Exchange) :
    (d.takeUp s x).Sound d := by
  unfold Dispatcher.takeUp
  cases hr : d.routes.route? x.request.method x.request.path with
  | none =>
      refine ⟨?_, ?_, ?_⟩
      · rintro h ⟨⟩
      · rintro entry fs ⟨⟩
      · rintro fs r ⟨⟩
  | some entry =>
      have hhandler := hd.handler _ _ entry hr
      refine ⟨?_, ?_, ?_⟩
      · rintro h ⟨⟩
        exact hhandler
      · rintro entry fs ⟨⟩
        exact ⟨hhandler, List.Subset.refl _, List.not_mem_nil⟩
      · rintro fs r ⟨⟩

/-- What requests share says nothing of what a request has behind it and before it. -/
theorem Sound.share (hu : u.Sound d) (app : σ) (metrics : Metrics) :
    (u.share app metrics).Sound d :=
  ⟨hu.handler, hu.before, hu.after⟩

/-!
## One turn
-/

theorem inside_advance_of_countsStart (hu : u.Sound d) (h : u.stage.Runs countsStart) :
    (d.advance u).Inside := by
  obtain ⟨hcallbacks, -⟩ := advance_of_countsStart d h
  obtain ⟨entry, f, fs, hstage, -⟩ := exists_before_of_runs h
  obtain ⟨-, -, hend⟩ := hu.before entry _ hstage
  rw [Inside, hcallbacks]
  refine ⟨List.mem_append_right _ List.mem_cons_self, ?_⟩
  rw [List.mem_append, List.mem_singleton, not_or]
  exact ⟨hend, nofun⟩

theorem not_inside_advance_of_countsEnd (d : Dispatcher σ) (h : u.stage.Runs countsEnd) :
    ¬ (d.advance u).Inside := by
  obtain ⟨hcallbacks, -⟩ := advance_of_countsEnd d h
  rw [Inside, hcallbacks]
  exact fun hinside => hinside.2 (List.mem_append_right _ List.mem_cons_self)

theorem inside_advance_iff (d : Dispatcher σ) (hstart : ¬ u.stage.Runs countsStart)
    (hend : ¬ u.stage.Runs countsEnd) : (d.advance u).Inside ↔ u.Inside := by
  obtain ⟨cs, hcallbacks, hruns⟩ := callbacks_advance d u
  have hnone {c : Callback σ} (hc : ¬ u.stage.Runs c) : c ∉ cs := fun hmem => hc (hruns c hmem)
  rw [Inside, Inside, hcallbacks, List.mem_append, List.mem_append, or_iff_left (hnone hstart),
    or_iff_left (hnone hend)]

end Underway

namespace Metrics

variable (m : Metrics)

theorem toNat_inFlight_started (h : m.inFlight.toNat + 1 < UInt64.size) :
    m.started.inFlight.toNat = m.inFlight.toNat + 1 := by
  have hadd : m.started.inFlight = m.inFlight + 1 := rfl
  rw [hadd, UInt64.toNat_add]
  exact Nat.mod_eq_of_lt h

theorem toNat_inFlight_started_ne : m.started.inFlight.toNat ≠ m.inFlight.toNat := by
  have hadd : m.started.inFlight = m.inFlight + 1 := rfl
  have hone : (1 : UInt64).toNat = 1 := rfl
  rw [hadd, UInt64.toNat_add, hone]
  omega

theorem toNat_inFlight_finished (status : Status) (nanos : UInt64) (template : Option String) :
    (m.finished status nanos template).inFlight.toNat = m.inFlight.toNat - 1 := by
  have hsub : (m.finished status nanos template).inFlight =
      if m.inFlight = 0 then 0 else m.inFlight - 1 := rfl
  rw [hsub]
  split
  · next h => rw [h]; rfl
  · next h =>
    have hne : m.inFlight.toNat ≠ 0 := fun hzero => h (UInt64.toNat_inj.1 hzero)
    have hle : 1 ≤ m.inFlight := UInt64.le_iff_toNat_le.2 (Nat.pos_of_ne_zero hne)
    rw [UInt64.toNat_sub_of_le _ _ hle]
    rfl

end Metrics

namespace Service

variable {ι : Type} {d : Dispatcher σ} {s : Service ι σ} {i : ι}

def inside (s : Service ι σ) : Set ι := {i | (s.requests i).Inside}

/-- The gauge shows how many requests are inside. -/
def Right (s : Service ι σ) : Prop := s.metrics.inFlight.toNat = s.inside.ncard

/-- In its next turn, the request does not raise the gauge a second time, and does not lower it for
another request. -/
structure Tidy (s : Service ι σ) (i : ι) : Prop where
  raises : (s.requests i).stage.Runs countsStart → i ∉ s.inside
  lowers : (s.requests i).stage.Runs countsEnd → i ∈ s.inside ∨ s.inside = ∅

theorem right_start (d : Dispatcher σ) (app : σ) {metrics : Metrics} (hzero : metrics.inFlight = 0)
    (arrivals : ι → Surroundings σ × Exchange) : (start d app metrics arrivals).Right := by
  have hempty : (start d app metrics arrivals).inside = ∅ := by
    refine Set.eq_empty_of_forall_notMem fun i hi => ?_
    have hnone : ((start d app metrics arrivals).requests i).callbacks = [] := by
      unfold start Underway.callbacks Dispatcher.takeUp
      dsimp only
      split <;> rfl
    have hmem : countsStart ∈ ((start d app metrics arrivals).requests i).callbacks := hi.1
    rw [hnone] at hmem
    cases hmem
  have hgauge : (start d app metrics arrivals).metrics = metrics := rfl
  rw [Right, hempty, hgauge, hzero, Set.ncard_empty]
  rfl

variable [DecidableEq ι] {u : Underway σ}

theorem inside_put_of_inside (hu : u.Inside) : (s.put i u).inside = insert i s.inside := by
  ext j
  by_cases hj : j = i
  · subst hj
    have hput : (s.put j u).requests j = u := Function.update_self ..
    simp [inside, hput, hu]
  · have hput : (s.put i u).requests j = s.requests j := Function.update_of_ne hj ..
    simp [inside, hput, hj]

theorem inside_put_of_not_inside (hu : ¬ u.Inside) : (s.put i u).inside = s.inside \ {i} := by
  ext j
  by_cases hj : j = i
  · subst hj
    have hput : (s.put j u).requests j = u := Function.update_self ..
    simp [inside, hput, hu]
  · have hput : (s.put i u).requests j = s.requests j := Function.update_of_ne hj ..
    simp [inside, hput, hj]

theorem right_turn (hd : d.OnlyCounts) (hs : (s.requests i).Sound d) (hright : s.Right)
    (hstart : ¬ (s.requests i).stage.Runs countsStart)
    (hend : ¬ (s.requests i).stage.Runs countsEnd) :
    (s.turn d i).Right := by
  have hgauge : (s.turn d i).metrics = s.metrics :=
    (hs.share s.app s.metrics).metrics_advance hd hstart hend
  have hset : (s.turn d i).inside = s.inside := by
    have hiff :=
      Underway.inside_advance_iff (u := (s.requests i).share s.app s.metrics) d hstart hend
    by_cases hi : i ∈ s.inside
    · rw [← Set.insert_eq_of_mem hi]
      exact inside_put_of_inside (hiff.2 hi)
    · rw [← Set.sdiff_singleton_eq_self hi]
      exact inside_put_of_not_inside fun hu => hi (hiff.1 hu)
  rw [Right, hgauge, hset]
  exact hright

theorem sound_turn (hs : ∀ i, (s.requests i).Sound d) (i j : ι) :
    ((s.turn d i).requests j).Sound d :=
  forall_requests_turn (fun _ app metrics h => h.share app metrics) (fun _ h => h.advance) hs i j

section

variable [Finite ι]

theorem right_turn_iff_of_countsStart (hcard : Nat.card ι < UInt64.size)
    (hs : (s.requests i).Sound d) (hright : s.Right) (h : (s.requests i).stage.Runs countsStart) :
    (s.turn d i).Right ↔ i ∉ s.inside := by
  have hinside := Underway.inside_advance_of_countsStart (hs.share s.app s.metrics) h
  obtain ⟨-, hmetrics⟩ :=
    Underway.advance_of_countsStart (u := (s.requests i).share s.app s.metrics) d h
  have hgauge : (s.turn d i).metrics = s.metrics.started := hmetrics
  have hset : (s.turn d i).inside = insert i s.inside := inside_put_of_inside hinside
  rw [Right, hgauge, hset]
  by_cases hi : i ∈ s.inside
  · rw [Set.insert_eq_of_mem hi, ← hright]
    exact ⟨fun heq => absurd heq s.metrics.toNat_inFlight_started_ne, fun hnot => absurd hi hnot⟩
  · have hcount := Set.ncard_insert_of_notMem hi
    have hle := Set.ncard_le_card (insert i s.inside)
    have hroom : s.metrics.inFlight.toNat + 1 < UInt64.size := by
      rw [hright]
      omega
    rw [s.metrics.toNat_inFlight_started hroom, hcount, hright]
    exact ⟨fun _ => hi, fun _ => rfl⟩

theorem right_turn_iff_of_countsEnd (hright : s.Right) (h : (s.requests i).stage.Runs countsEnd) :
    (s.turn d i).Right ↔ i ∈ s.inside ∨ s.inside = ∅ := by
  have hinside :=
    Underway.not_inside_advance_of_countsEnd (u := (s.requests i).share s.app s.metrics) d h
  obtain ⟨-, status, nanos, template, hmetrics⟩ :=
    Underway.advance_of_countsEnd (u := (s.requests i).share s.app s.metrics) d h
  have hgauge : (s.turn d i).metrics = s.metrics.finished status nanos template := hmetrics
  have hset : (s.turn d i).inside = s.inside \ {i} := inside_put_of_not_inside hinside
  rw [Right, hgauge, hset, Metrics.toNat_inFlight_finished, hright]
  by_cases hi : i ∈ s.inside
  · have hcount := Set.ncard_sdiff_singleton_add_one hi
    exact ⟨fun _ => .inl hi, fun _ => by omega⟩
  · have hempty : s.inside.ncard = 0 ↔ s.inside = ∅ := Set.ncard_eq_zero
    rw [Set.sdiff_singleton_eq_self hi, or_iff_right hi, ← hempty]
    omega

/-- A turn leaves the gauge right if and only if it is tidy. -/
theorem right_turn_iff (hd : d.OnlyCounts) (hcard : Nat.card ι < UInt64.size)
    (hs : (s.requests i).Sound d) (hright : s.Right) : (s.turn d i).Right ↔ s.Tidy i := by
  by_cases hstart : (s.requests i).stage.Runs countsStart
  · have hend : ¬ (s.requests i).stage.Runs countsEnd := by
      intro hend
      obtain ⟨_, _, _, hbefore, -⟩ := Underway.exists_before_of_runs hstart
      obtain ⟨_, _, _, hafter, -⟩ := Underway.exists_after_of_runs hend
      cases hbefore.symm.trans hafter
    rw [right_turn_iff_of_countsStart hcard hs hright hstart]
    exact ⟨fun hi => ⟨fun _ => hi, fun h => absurd h hend⟩, fun h => h.raises hstart⟩
  · by_cases hend : (s.requests i).stage.Runs countsEnd
    · rw [right_turn_iff_of_countsEnd hright hend]
      exact ⟨fun hi => ⟨fun h => absurd h hstart, fun _ => hi⟩, fun h => h.lowers hend⟩
    · exact ⟨fun _ => ⟨fun h => absurd h hstart, fun h => absurd h hend⟩,
        fun _ => right_turn hd hs hright hstart hend⟩

/-!
## All turns
-/

/-- The gauge is right at every moment if and only if every turn is tidy. -/
theorem right_after_iff (hd : d.OnlyCounts) (hcard : Nat.card ι < UInt64.size)
    (hs : ∀ i, (s.requests i).Sound d) (hright : s.Right) (is : List ι) :
    (∀ js, js <+: is → (s.after d js).Right) ↔
      ∀ js i, js ++ [i] <+: is → (s.after d js).Tidy i := by
  induction is generalizing s with
  | nil =>
      refine ⟨fun _ js i h => ?_, fun _ js h => ?_⟩
      · exact absurd (List.prefix_nil.1 h) (by simp)
      · rw [List.prefix_nil.1 h]
        exact hright
  | cons i is ih =>
      have hturn := right_turn_iff hd hcard (hs i) hright
      have hrest := fun h => ih (s := s.turn d i) (sound_turn hs i) h
      constructor
      · intro h js j hjs
        have hmoved : (s.turn d i).Right := h [i] (List.cons_prefix_cons.2 ⟨rfl, List.nil_prefix⟩)
        cases js with
        | nil =>
            obtain ⟨rfl, -⟩ := List.cons_prefix_cons.1 hjs
            exact hturn.1 hmoved
        | cons k ks =>
            obtain ⟨rfl, hks⟩ := List.cons_prefix_cons.1 hjs
            exact (hrest hmoved).1
              (fun ks hks => h (k :: ks) (List.cons_prefix_cons.2 ⟨rfl, hks⟩)) ks j hks
      · intro h js hjs
        have hmoved : (s.turn d i).Right :=
          hturn.2 (h [] i (List.cons_prefix_cons.2 ⟨rfl, List.nil_prefix⟩))
        cases js with
        | nil => exact hright
        | cons k ks =>
            obtain ⟨rfl, hks⟩ := List.cons_prefix_cons.1 hjs
            exact (hrest hmoved).2
              (fun ks j hks => h (k :: ks) j (List.cons_prefix_cons.2 ⟨rfl, hks⟩)) ks hks

/-- However requests follow each other in their turns, the gauge shows at every moment how many of
them are past the one hook and not yet past the other, if and only if no turn raises it a second
time for one request or lowers it for another than its own. -/
theorem right_after_start_iff (hd : d.OnlyCounts) (hcard : Nat.card ι < UInt64.size) (app : σ)
    {metrics : Metrics} (hzero : metrics.inFlight = 0) (arrivals : ι → Surroundings σ × Exchange)
    (is : List ι) :
    (∀ js, js <+: is → ((start d app metrics arrivals).after d js).Right) ↔
      ∀ js i, js ++ [i] <+: is → ((start d app metrics arrivals).after d js).Tidy i :=
  right_after_iff hd hcard (fun i => Underway.sound_takeUp hd (arrivals i).1 (arrivals i).2)
    (right_start d app hzero arrivals) is

end

/-- A dispatcher with a filter that closes one of its two paths, and comes before the hooks. -/
def crossing : Dispatcher Unit :=
  { Dispatcher.idle with
    routes := (RouteTable.empty false 8).registerValid
      [.before (some "/shut") (.done (.halt {})),
        .around none Middleware.counting.before Middleware.counting.afterFilter,
        .route .get "/" [] (.done {}), .route .get "/shut" [] (.done {})] }

def crossingArrivals (shut : Bool) : Surroundings Unit × Exchange :=
  ({ app := (), freshId := ⟨0⟩ },
    .inMemory { method := .get, path := if shut then "/shut" else "/" } [] {})

theorem onlyCounts_crossing : crossing.OnlyCounts := by
  refine Dispatcher.onlyCounts_of_registrations rfl ?_ (fun _ => nofun) fun _ _ => nofun
  simp only [List.forall_mem_cons, List.not_mem_nil, false_imp_iff, implies_true, and_true]
  exact ⟨.inr trivial, ⟨.inl rfl, .inl rfl⟩, trivial, trivial⟩

/-- The request that is stopped lowers the gauge while the other one is on its way to
its handler. -/
theorem right_after_start_iff_crossing :
    crossing.OnlyCounts ∧ Nat.card Bool < UInt64.size ∧ ({} : Metrics).inFlight = 0 ∧
      ((start crossing () {} crossingArrivals).after crossing
        [false, true, true]).metrics.inFlight = 0 ∧
      ¬ ∀ js, js <+: [false, true, true] →
        ((start crossing () {} crossingArrivals).after crossing js).Right := by
  have hcard : Nat.card Bool < UInt64.size := by
    rw [Nat.card_eq_fintype_card]
    decide
  refine ⟨onlyCounts_crossing, hcard, rfl, by decide +kernel, ?_⟩
  rw [right_after_start_iff onlyCounts_crossing hcard () rfl crossingArrivals]
  intro htidy
  have hlast := htidy [false, true] true (List.prefix_refl _)
  generalize hs : (start crossing () {} crossingArrivals).after crossing [false, true] = s at hlast
  have hopen : (s.requests false).callbacks = [countsStart] := hs ▸ rfl
  have hshut : (s.requests true).callbacks = [.before (.done (.halt {}))] := hs ▸ rfl
  have hstage : (s.requests true).stage = .after [⟨none, Middleware.counting.afterFilter⟩] {} :=
    hs ▸ rfl
  have hruns : (s.requests true).stage.Runs countsEnd := hstage ▸ .after _ [] {}
  have hinside : false ∈ s.inside := by
    refine ⟨hopen ▸ List.mem_singleton_self _, ?_⟩
    rw [hopen, List.mem_singleton]
    exact nofun
  obtain hown | hnobody := hlast.lowers hruns
  · have hmem : countsStart ∈ (s.requests true).callbacks := hown.1
    rw [hshut, List.mem_singleton] at hmem
    cases hmem
  · rw [hnobody] at hinside
    exact hinside

end Service

end HttpDispatch
