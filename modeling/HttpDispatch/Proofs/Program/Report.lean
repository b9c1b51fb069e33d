import HttpDispatch.Program.Run
import HttpDispatch.Proofs.Context.Report

/-!
# Calls do not depend on the report

A run without the reports that it carries, that of its exchange, those in its event streams and that
of other tasks, is all that a call depends on: `Run.agrees_perform`.
-/

namespace HttpDispatch

variable {σ α : Type}

def HeldStream.unreported (h : HeldStream σ) : HeldStream σ :=
  { h with stream := h.stream.unreported }

namespace Run

variable {r r' : Run σ}

def unreported (r : Run σ) : Run σ :=
  { r with
    context := r.context.unreported, events := r.events.map HeldStream.unreported, elsewhere := [] }

theorem unreported_eq (hc : r.context.unreported = r'.context.unreported)
    (hs : r.stream = r'.stream)
    (he : r.events.map HeldStream.unreported = r'.events.map HeldStream.unreported)
    (ha : r.app = r'.app) (hm : r.metrics = r'.metrics) (ht : r.elapsed = r'.elapsed)
    (hn : r.nesting = r'.nesting) : r.unreported = r'.unreported := by
  unfold unreported
  rw [hc, hs, he, ha, hm, ht, hn]

theorem unreported_context (h : r.unreported = r'.unreported) :
    r.context.unreported = r'.context.unreported :=
  (congrArg Run.context h :)

theorem map_events (h : r.unreported = r'.unreported) :
    r.events.map HeldStream.unreported = r'.events.map HeldStream.unreported :=
  (congrArg Run.events h :)

theorem nesting_eq (h : r.unreported = r'.unreported) : r.nesting = r'.nesting :=
  (congrArg Run.nesting h :)

theorem length_events (h : r.unreported = r'.unreported) : r.events.length = r'.events.length := by
  have hlen := congrArg List.length (map_events h)
  rwa [List.length_map, List.length_map] at hlen

/-- The state of the request may be replaced by any that looks the same, and the response stream
with it. -/
theorem unreported_withRequest (h : r.unreported = r'.unreported) {c c' : Context}
    (hc : c.unreported = c'.unreported) (stream : Option ResponseStream) :
    ({ r with context := c, stream } : Run σ).unreported =
      ({ r' with context := c', stream } : Run σ).unreported :=
  unreported_eq hc rfl (map_events h :) (congrArg Run.app h :) (congrArg Run.metrics h :)
    (congrArg Run.elapsed h :) (nesting_eq h :)

theorem unreported_withContext (h : r.unreported = r'.unreported) {f g : Context → Context}
    (hf : (f r.context).unreported = (g r'.context).unreported) :
    (r.withContext f).unreported = (r'.withContext g).unreported :=
  unreported_eq hf (congrArg Run.stream h :) (map_events h :) (congrArg Run.app h :)
    (congrArg Run.metrics h :) (congrArg Run.elapsed h :) (nesting_eq h :)

theorem unreported_dropStream (h : r.unreported = r'.unreported) :
    r.dropStream.unreported = r'.dropStream.unreported := by
  have hs : r.stream = r'.stream := (congrArg Run.stream h :)
  have hc := unreported_context h
  unfold dropStream
  rw [hs]
  split
  · exact h
  · next s _ =>
    have hx :
        (s.drop r.context.exchange).2.unreported = (s.drop r'.context.exchange).2.unreported :=
      congrArg Prod.snd (ResponseStream.unreported_drop s (Context.unreported_exchange hc))
    exact unreported_withRequest h (Context.unreported_withExchange hc hx) none

theorem agrees_onContext {ε : Type} {f : Context → Attempt Context ε α}
    (hf : ∀ c c' : Context, c.unreported = c'.unreported → Agrees Context.unreported (f c) (f c'))
    (h : r.unreported = r'.unreported) : Agrees unreported (r.onContext f) (r'.onContext f) := by
  have hd := unreported_dropStream h
  have hfd := hf _ _ (unreported_context hd)
  exact ⟨hfd.result, unreported_withContext (f := fun _ => (f r.dropStream.context).2)
    (g := fun _ => (f r'.dropStream.context).2) hd hfd.state⟩

theorem agrees_onStream {f : ResponseStream → Exchange → ResponseStream.On α}
    (hf : ∀ s (x y : Exchange), x.unreported = y.unreported →
      Agrees ResponseStream.unreported (f s x) (f s y))
    (h : r.unreported = r'.unreported) : Agrees unreported (r.onStream f) (r'.onStream f) := by
  have hs : r.stream = r'.stream := (congrArg Run.stream h :)
  have hc := unreported_context h
  unfold onStream
  rw [hs]
  split
  · exact .of_eq h
  · next s _ =>
    refine (hf s _ _ (Context.unreported_exchange hc)).elim ?_
    rintro a ⟨s', x⟩ ⟨_, y⟩ ht
    obtain ⟨rfl, hxy⟩ := Prod.mk.inj ht
    exact .of_eq (unreported_withRequest h (Context.unreported_withExchange hc hxy) (some s'))

theorem agrees_openStream (h : r.unreported = r'.unreported) :
    Agrees unreported r.openStream r'.openStream := by
  have hd := unreported_dropStream h
  have hc := unreported_context hd
  unfold openStream
  simp only
  rw [Context.headersSent_eq hc]
  have hcoder : r.dropStream.context.coder = r'.dropStream.context.coder :=
    (congrArg Context.coder hc :)
  have hsettings : r.dropStream.context.settings = r'.dropStream.context.settings :=
    (congrArg Context.settings hc :)
  rw [hcoder, hsettings]
  refine .ite (fun _ => .of_eq hd) fun _ => .of_eq ?_
  exact unreported_withRequest hd (Context.unreported_stamp hc) _

theorem getElem?_events (h : r.unreported = r'.unreported) (n : Nat) :
    r.events[n]?.map HeldStream.unreported = r'.events[n]?.map HeldStream.unreported := by
  have hn := congrArg (·[n]?) (map_events h)
  simpa only [List.getElem?_map] using hn

/-- The event stream of a number with the writer and the report of the exchange. -/
def attached (r : Run σ) (s : EventStream (σ → σ)) : EventStream (σ → σ) :=
  { s with emitter :=
      { s.emitter with out := r.context.exchange.out, log := r.context.exchange.log } }

def putEvents (r : Run σ) (n : Nat) (held : HeldStream σ) (before after : EventStream (σ → σ)) :
    Run σ :=
  { r with
    context := r.context.withEmitter after.emitter
    events := r.events.set n { held with stream := after }
    app := (after.ran.drop before.ran.length).foldl (fun s callback => callback s) r.app }

theorem onEvents_of_none {n : Nat} (hn : r.events[n]? = none) (dflt : α)
    (f : EventStream (σ → σ) → α × EventStream (σ → σ)) : r.onEvents n dflt f = (dflt, r) := by
  unfold onEvents
  rw [hn]

theorem onEvents_of_some {n : Nat} {held : HeldStream σ} (hn : r.events[n]? = some held) (dflt : α)
    (f : EventStream (σ → σ) → α × EventStream (σ → σ)) :
    r.onEvents n dflt f =
      ((f (r.attached held.stream)).1,
        r.putEvents n held (r.attached held.stream) (f (r.attached held.stream)).2) := by
  unfold onEvents
  rw [hn]
  rfl

theorem unreported_attached (h : r.unreported = r'.unreported) {s s' : EventStream (σ → σ)}
    (hs : s.unreported = s'.unreported) :
    (r.attached s).unreported = (r'.attached s').unreported := by
  have hout : r.context.exchange.out = r'.context.exchange.out :=
    (congrArg (fun r : Run σ => r.context.exchange.out) h :)
  obtain ⟨l, rfl⟩ := EventStream.exists_log hs
  unfold attached
  rw [hout]
  rfl

theorem unreported_putEvents (h : r.unreported = r'.unreported) (n : Nat)
    {held held' : HeldStream σ} (hheld : held.unreported = held'.unreported)
    {before before' after after' : EventStream (σ → σ)}
    (hb : before.unreported = before'.unreported) (ha : after.unreported = after'.unreported) :
    (r.putEvents n held before after).unreported =
      (r'.putEvents n held' before' after').unreported := by
  obtain ⟨l, rfl⟩ := EventStream.exists_log ha
  have hran : before.ran = before'.ran := (congrArg EventStream.ran hb :)
  have happ : r.app = r'.app := (congrArg Run.app h :)
  have hheld' : held.held = held'.held := (congrArg HeldStream.held hheld :)
  refine unreported_eq ?_ (congrArg Run.stream h :) ?_ ?_ (congrArg Run.metrics h :)
    (congrArg Run.elapsed h :) (nesting_eq h :)
  · refine Context.unreported_onExchange (unreported_context h) ?_
    have hx := Context.unreported_exchange (unreported_context h)
    exact (congrArg (fun x : Exchange => { x with out := after.emitter.out }) hx :)
  · change (r.events.set n _).map _ = (r'.events.set n _).map _
    rw [List.map_set, List.map_set, map_events h, hheld']
    rfl
  · change (after.ran.drop before.ran.length).foldl _ r.app = _
    rw [hran, happ]
    rfl

theorem agrees_onEvents {f : EventStream (σ → σ) → α × EventStream (σ → σ)}
    (hf : ∀ s s' : EventStream (σ → σ), s.unreported = s'.unreported →
      Agrees EventStream.unreported (f s) (f s'))
    (n : Nat) (dflt : α) (h : r.unreported = r'.unreported) :
    Agrees unreported (r.onEvents n dflt f) (r'.onEvents n dflt f) := by
  have hn := getElem?_events h n
  rcases hr : r.events[n]? with _ | held <;> rcases hr' : r'.events[n]? with _ | held' <;>
    rw [hr, hr'] at hn
  · rw [onEvents_of_none hr, onEvents_of_none hr']
    exact .of_eq h
  · cases hn
  · cases hn
  · have hheld : held.unreported = held'.unreported := Option.some.inj hn
    have hbefore := unreported_attached h (congrArg HeldStream.stream hheld :)
    have hafter := hf _ _ hbefore
    rw [onEvents_of_some hr, onEvents_of_some hr']
    exact ⟨hafter.result, unreported_putEvents h n hheld hbefore hafter.state⟩

theorem agrees_callEvents (n : Nat) (c : EventStream.Call (σ → σ))
    (h : r.unreported = r'.unreported) :
    Agrees unreported (r.callEvents n c) (r'.callEvents n c) := by
  refine agrees_onEvents (fun s s' hs => ?_) n _ h
  have hid : s.id = s'.id := (congrArg EventStream.id hs :)
  unfold EventStream.call
  rw [hid]
  exact EventStream.agrees_run _ hs

theorem unreported_withApp (h : r.unreported = r'.unreported) (f : σ → σ) :
    ({ r with app := f r.app } : Run σ).unreported =
      ({ r' with app := f r'.app } : Run σ).unreported :=
  (congrArg (fun r : Run σ => { r with app := f r.app }) h :)

theorem unreported_callElsewhere (n : Nat) (cs : List (NotedCall σ))
    (h : r.unreported = r'.unreported) :
    (r.callElsewhere n cs).unreported = (r'.callElsewhere n cs).unreported := by
  induction cs generalizing r r' with
  | nil => exact (agrees_callEvents n .close h).state
  | cons c cs ih =>
      unfold callElsewhere
      refine (agrees_callEvents n c.call h).elim fun result r r' h => ?_
      exact ih (unreported_withApp h (c.note result))

theorem unreported_modify_events (h : r.unreported = r'.unreported) (n : Nat) (held : Bool) :
    ({ r with events := r.events.modify n ({ · with held }) } : Run σ).unreported =
      ({ r' with events := r'.events.modify n ({ · with held }) } : Run σ).unreported := by
  have hmap : ∀ l : List (HeldStream σ), (l.modify n ({ · with held })).map HeldStream.unreported =
      (l.map HeldStream.unreported).modify n ({ · with held }) := by
    intro l
    apply List.ext_getElem?
    intro i
    rw [List.getElem?_map, List.getElem?_modify, List.getElem?_modify, List.getElem?_map]
    cases l[i]? with
    | none => rfl
    | some e =>
        by_cases hn : n = i
        · simp [hn]
          rfl
        · simp [hn]
  refine unreported_eq (unreported_context h :) (congrArg Run.stream h :) ?_ (congrArg Run.app h :)
    (congrArg Run.metrics h :) (congrArg Run.elapsed h :) (nesting_eq h :)
  rw [hmap, hmap, map_events h]

theorem unreported_dropEvents (n : Nat) (h : r.unreported = r'.unreported) :
    (r.dropEvents n).unreported = (r'.dropEvents n).unreported := by
  have hn := getElem?_events h n
  have hdrop : ∀ s s' : EventStream (σ → σ), s.unreported = s'.unreported →
      Agrees EventStream.unreported ((), s.drop) ((), s'.drop) := by
    intro s s' hs
    have hid : s.id = s'.id := (congrArg EventStream.id hs :)
    unfold EventStream.drop
    rw [hid]
    exact .of_eq (EventStream.agrees_run _ hs).state
  have hev := agrees_onEvents hdrop n () h
  unfold dropEvents
  rcases hr : r.events[n]? with _ | ⟨s, held⟩ <;>
    rcases hr' : r'.events[n]? with _ | ⟨s', held'⟩ <;> rw [hr, hr'] at hn
  · exact h
  · cases hn
  · cases hn
  · obtain rfl : held = held' := (congrArg HeldStream.held (Option.some.inj hn) :)
    cases held with
    | false => exact h
    | true => exact unreported_modify_events hev.state n false

theorem unreported_keepAlive (n : Nat) (others : List (NotedCall σ))
    (h : r.unreported = r'.unreported) :
    (r.keepAlive n others).unreported = (r'.keepAlive n others).unreported := by
  have hparked : (r.withContext (·.report (.eventStreamParked r.context.id))).unreported =
      (r'.withContext (·.report (.eventStreamParked r'.context.id))).unreported := h
  have hcalls := unreported_callElsewhere n others hparked
  exact unreported_dropEvents n hcalls

theorem agrees_openEvents (h : r.unreported = r'.unreported) :
    Agrees unreported r.openEvents r'.openEvents := by
  have hd := unreported_dropStream h
  have hopen := Context.agrees_openEvents (κ := σ → σ) (unreported_context hd)
  have hlen := length_events hd
  unfold openEvents onContext
  simp only
  generalize r.dropStream.context.openEvents = p at hopen ⊢
  generalize r'.dropStream.context.openEvents = q at hopen ⊢
  obtain ⟨e | s, c⟩ := p <;> obtain ⟨e' | s', c'⟩ := q <;> obtain ⟨hresult, hc⟩ := hopen
  · obtain rfl : e = e' := Except.error.inj hresult
    exact .of_eq (unreported_withContext hd (f := fun _ => c) (g := fun _ => c') hc)
  · cases hresult
  · cases hresult
  · have hs : s.unreported = s'.unreported := Except.ok.inj hresult
    simp only
    rw [hlen]
    refine .of_eq (unreported_eq hc (congrArg Run.stream hd :) ?_ (congrArg Run.app hd :)
      (congrArg Run.metrics hd :) (congrArg Run.elapsed hd :) (nesting_eq hd :))
    rw [List.map_append, List.map_append, map_events hd]
    exact congrArg (fun s => r'.dropStream.events.map HeldStream.unreported ++ [⟨s, true⟩]) hs

/-- No call reads a report. -/
theorem agrees_perform (c : Call σ) (h : r.unreported = r'.unreported) :
    Agrees unreported (r.perform c) (r'.perform c) := by
  have hd := unreported_dropStream h
  cases c with
  | view => exact ⟨(congrArg (fun r : Run σ => r.context.view) hd :), hd⟩
  | bodyBytes => exact agrees_onContext (fun _ _ => Context.agrees_bodyBytes) h
  | bodyJson => exact agrees_onContext (fun _ _ => Context.agrees_bodyJson) h
  | setAttributes a =>
      refine ⟨rfl, unreported_withContext hd ?_⟩
      exact Context.unreported_onExchange (unreported_context hd)
        (congrArg (fun r : Run σ => { r.context.exchange with attributes := a }) hd :)
  | setStatus s => exact agrees_onContext (fun _ _ => Context.agrees_setStatus s) h
  | setField n v => exact agrees_onContext (fun _ _ => Context.agrees_setField n v) h
  | openStream => exact agrees_openStream h
  | streamWrite b => exact agrees_onStream (fun s _ _ => ResponseStream.agrees_write s b) h
  | streamWriteAll b => exact agrees_onStream (fun s _ _ => ResponseStream.agrees_writeAll s b) h
  | streamFlush => exact agrees_onStream (fun s _ _ => ResponseStream.agrees_flush s) h
  | streamFinish => exact agrees_onStream (fun s _ _ => ResponseStream.agrees_finish s) h
  | streamDrop => exact ⟨rfl, hd⟩
  | streamView => exact ⟨(congrArg Run.streamView h :), h⟩
  | serveRange source total contentType =>
      exact agrees_onContext (fun _ _ => Context.agrees_serveRange source total contentType) h
  | openEvents => exact agrees_openEvents h
  | events n c => exact agrees_callEvents n c h
  | eventsClosed n =>
      have hn := congrArg (Option.map fun e : HeldStream σ => e.stream.closed) (getElem?_events h n)
      rw [Option.map_map, Option.map_map] at hn
      exact ⟨congrArg (·.getD true) hn, h⟩
  | keepAlive n others => exact ⟨rfl, unreported_keepAlive n others h⟩
  | dropEvents n => exact ⟨rfl, unreported_dropEvents n h⟩
  | get => exact ⟨(congrArg Run.app h :), h⟩
  | modify f => exact ⟨rfl, unreported_withApp h f⟩
  | metrics => exact ⟨(congrArg Run.metrics h :), h⟩
  | modifyMetrics f =>
      exact ⟨rfl, (congrArg (fun r : Run σ => { r with metrics := f r.metrics }) h :)⟩
  | elapsed => exact ⟨(congrArg Run.elapsed h :), h⟩
  | report e => exact ⟨rfl, h⟩

theorem unreported_settle (first : Nat) (h : r.unreported = r'.unreported) :
    (r.settle first).unreported = (r'.settle first).unreported := by
  have hfold : ∀ (ns : List Nat) {r r' : Run σ}, r.unreported = r'.unreported →
      (ns.foldl dropEvents r).unreported = (ns.foldl dropEvents r').unreported := by
    intro ns
    induction ns with
    | nil => exact fun h => h
    | cons n ns ih => exact fun h => ih (unreported_dropEvents n h)
  have hd := unreported_dropStream h
  unfold settle
  simp only
  rw [length_events hd]
  exact hfold _ hd

end Run

end HttpDispatch
