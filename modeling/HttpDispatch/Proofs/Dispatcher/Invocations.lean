import HttpDispatch.Proofs.Dispatcher.Failure
import HttpDispatch.Proofs.Program.Calls

/-!
# The callbacks that a dispatch runs

Which callbacks a dispatch runs, and on what, depends on how the ones before have ended.
`Dispatcher.invocations` lists them stage by stage, each with the state that it is run on, so that a
condition on what an application does in one dispatch is a condition on the list.

Apart from its callbacks a dispatch does nothing to a request but take notes, and every response
that it comes to is one that a callback has returned, or one of its own. So what holds when a
request arrives, and is kept by each of the callbacks that are run, holds when the response is due
(`Dispatcher.holds_respond`).
-/

namespace HttpDispatch

variable {σ α : Type}

def Verdict.response? : Verdict → Option Response
  | proceed => none
  | halt r => some r

/-- A callback that is run: what it does, the response that its result stands for, and what it is
run on. -/
structure Invocation (σ : Type) where
  callback : Callback σ
  Result : Type
  program : Program σ Result
  response? : Result → Option Response
  handler : Option (Handler σ)
  run : Run σ

namespace Invocation

def calls (i : Invocation σ) : List (Call σ) := i.program.calls i.handler i.run

def after (i : Invocation σ) : Run σ := (i.program.run i.handler i.run).2

def Returns (i : Invocation σ) (r : Response) : Prop :=
  ∃ a, (i.program.run i.handler i.run).1 = .ok a ∧ i.response? a = some r

/-- The callback keeps what `P` says of the run, and `Q` holds of the response that it returns. -/
structure Keeps (P : Run σ → Prop) (Q : Response → Prop) (i : Invocation σ) : Prop where
  run : P i.run → P i.after
  response : ∀ r, i.Returns r → Q r

end Invocation

def Passage.invocation (p : Passage σ) (callback : Callback σ) (program : Program σ α)
    (response? : α → Option Response) : Invocation σ :=
  { callback, Result := α, program, response?, handler := p.handler, run := p.run }

namespace Passage

variable {p q q' : Passage σ} {is js : List (Invocation σ)}

/-- From one to the other, the journal has got an entry for each of the callbacks. -/
def Runs (p : Passage σ) (is : List (Invocation σ)) (q : Passage σ) : Prop :=
  q.journal.map (·.callback) = p.journal.map (·.callback) ++ is.map (·.callback)

theorem Runs.refl (p : Passage σ) : p.Runs [] p := (List.append_nil _).symm

theorem Runs.trans (h : p.Runs is q) (h' : q.Runs js q') : p.Runs (is ++ js) q' := by
  rw [Runs, h', h, List.map_append, List.append_assoc]

theorem runs_invoke {c : Callback σ} {course : α → Course} {program : Program σ α}
    {result : Except DispatchError α} (hi : p.invoke c course program = (result, q))
    (response? : α → Option Response) : p.Runs [p.invocation c program response?] q := by
  obtain ⟨step, hc, hjournal⟩ := p.journal_invoke c course program
  rw [hi] at hjournal
  rw [Runs, show q.journal = p.journal ++ [step] from hjournal, List.map_append, List.map_singleton,
    hc]
  rfl

end Passage

namespace Dispatcher

open Passage

def errorInvocations (d : Dispatcher σ) (e : DispatchError) (p : Passage σ) : List (Invocation σ) :=
  if p.headersSent then []
  else match d.errorHandlers.find? e.category with
    | none => []
    | some (c, h) =>
      [((p.enter .error).report (.invokingHandler p.id e.category c)).invocation
        (.errorHandler c e) (h e) some]

def beforeInvocations (d : Dispatcher σ) :
    List (FilterEntry (BeforeFilter σ)) → Passage σ → List (Invocation σ)
  | [], _ => []
  | f :: fs, p =>
    p.invocation (.before f.filter) f.filter Verdict.response? ::
      match p.invoke (.before f.filter) Verdict.course f.filter with
      | (.ok .proceed, p) => d.beforeInvocations fs p
      | (.ok (.halt _), _) => []
      | (.error e, p) => d.errorInvocations e (p.fail e)

def accessInvocations (d : Dispatcher σ) (roles : List String) (p : Passage σ) :
    List (Invocation σ) :=
  match d.access with
  | none => []
  | some allow => [p.invocation (.access roles) (allow roles) fun _ => none]

def handlerInvocations (d : Dispatcher σ) (roles : List String) (h : Handler σ) (p : Passage σ) :
    List (Invocation σ) :=
  d.accessInvocations roles (p.enter .handler) ++
    match d.checkAccess roles (p.enter .handler) with
    | (.error e, p) => d.errorInvocations e (p.fail e)
    | (.ok (), p) =>
      p.invocation (.handler h) h some ::
        match p.invoke (.handler h) (fun _ => .continued) h with
        | (.error e, p) => d.errorInvocations e (p.fail e)
        | (.ok _, _) => []

def afterInvocations (d : Dispatcher σ) :
    List (FilterEntry (AfterFilter σ)) → Response → Passage σ → List (Invocation σ)
  | [], _, _ => []
  | f :: fs, r, p =>
    p.invocation (.after f.filter) (f.filter r) some ::
      match p.invoke (.after f.filter) (fun _ => .continued) (f.filter r) with
      | (.ok r, p) => d.afterInvocations fs r p
      | (.error e, p) =>
        let p := (p.report (.afterFilterFailed p.id e.category)).fail e
        d.errorInvocations e p ++
          d.afterInvocations fs (d.handleError e p).1 ((d.handleError e p).2.enter .afterFilters)

def routeInvocations (d : Dispatcher σ) (entry : RouteEntry (Handler σ)) (p : Passage σ) :
    List (Invocation σ) :=
  let path := p.run.context.exchange.request.path
  d.beforeInvocations (d.routes.beforeFor path) (p.enter .beforeFilters) ++
    match d.runBefore (d.routes.beforeFor path) (p.enter .beforeFilters) with
    | (some r, p) => d.afterInvocations (d.routes.afterFor path) r (p.enter .afterFilters)
    | (none, p) =>
      d.handlerInvocations entry.roles entry.handler p ++
        d.afterInvocations (d.routes.afterFor path) (d.runHandler entry.roles entry.handler p).1
          ((d.runHandler entry.roles entry.handler p).2.enter .afterFilters)

/-- The callbacks that are run in the dispatch of a request. -/
def invocations (d : Dispatcher σ) (s : Surroundings σ) (x : Exchange) : List (Invocation σ) :=
  match d.routes.route? x.request.method x.request.path with
  | none => d.errorInvocations (.http .notFound) ((d.received s x).fail (.http .notFound))
  | some entry => d.routeInvocations entry (d.routed s x entry)

/-!
## The list and the journal
-/

theorem runs_handleError (d : Dispatcher σ) (e : DispatchError) (p : Passage σ) :
    p.Runs (d.errorInvocations e p) (d.handleError e p).2 := by
  have hsent : (p.enter .error).headersSent = p.headersSent := rfl
  unfold errorInvocations handleError
  dsimp only
  rw [hsent]
  cases hh : p.headersSent with
  | true => exact .refl p
  | false =>
      simp only [Bool.false_eq_true, if_false]
      cases hf : d.errorHandlers.find? e.category with
      | none => exact .refl p
      | some found =>
          obtain ⟨c, h⟩ := found
          dsimp only
          rcases hi : Passage.invoke _ (.errorHandler c e) (fun _ => .continued) (h e) with
            ⟨failure | r, q⟩
          · have hq := runs_invoke hi some
            dsimp only
            split <;> exact hq
          · exact runs_invoke hi some

theorem runs_runBefore (d : Dispatcher σ) (fs : List (FilterEntry (BeforeFilter σ)))
    (p : Passage σ) : p.Runs (d.beforeInvocations fs p) (d.runBefore fs p).2 := by
  induction fs generalizing p with
  | nil => exact .refl p
  | cons f fs ih =>
      rw [runBefore, beforeInvocations]
      rcases hi : p.invoke (.before f.filter) Verdict.course f.filter with
        ⟨e | verdict | response, q⟩
      · exact (runs_invoke hi _).trans (d.runs_handleError e (q.fail e))
      · exact (runs_invoke hi _).trans (ih q)
      · exact runs_invoke hi _

theorem runs_checkAccess (d : Dispatcher σ) {roles : List String} {p q : Passage σ}
    {result : Except DispatchError Unit} (h : d.checkAccess roles p = (result, q)) :
    p.Runs (d.accessInvocations roles p) q := by
  unfold checkAccess at h
  unfold accessInvocations
  cases ha : d.access with
  | none =>
      rw [ha] at h
      cases h
      exact .refl p
  | some allow =>
      rw [ha] at h
      exact runs_invoke h _

theorem runs_runHandler (d : Dispatcher σ) (roles : List String) (h : Handler σ) (p : Passage σ) :
    p.Runs (d.handlerInvocations roles h p) (d.runHandler roles h p).2 := by
  unfold handlerInvocations runHandler
  dsimp only
  rcases ha : d.checkAccess roles (p.enter .handler) with ⟨e | ⟨⟩, q⟩
  · exact (d.runs_checkAccess ha).trans (d.runs_handleError e (q.fail e))
  · have haccess := d.runs_checkAccess ha
    dsimp only
    rcases hi : q.invoke (.handler h) (fun _ => .continued) h with ⟨e | r, q'⟩
    · exact haccess.trans ((runs_invoke hi _).trans (d.runs_handleError e (q'.fail e)))
    · exact haccess.trans (runs_invoke hi _)

theorem runs_runAfter (d : Dispatcher σ) (fs : List (FilterEntry (AfterFilter σ))) (r : Response)
    (p : Passage σ) : p.Runs (d.afterInvocations fs r p) (d.runAfter fs r p).2 := by
  induction fs generalizing r p with
  | nil => exact .refl p
  | cons f fs ih =>
      rw [runAfter, afterInvocations]
      rcases hi : p.invoke (.after f.filter) (fun _ => .continued) (f.filter r) with ⟨e | r', q⟩
      · have hmapped :=
          d.runs_handleError e ((q.report (.afterFilterFailed q.id e.category)).fail e)
        exact (runs_invoke hi _).trans (hmapped.trans (ih _ (Passage.enter _ .afterFilters)))
      · exact (runs_invoke hi _).trans (ih r' q)

theorem runs_runRoute (d : Dispatcher σ) (entry : RouteEntry (Handler σ)) (p : Passage σ) :
    p.Runs (d.routeInvocations entry p) (d.runRoute entry p).2 := by
  unfold routeInvocations runRoute
  dsimp only
  generalize p.run.context.exchange.request.path = path
  have hbefore := d.runs_runBefore (d.routes.beforeFor path) (p.enter .beforeFilters)
  generalize d.runBefore (d.routes.beforeFor path) (p.enter .beforeFilters) = filtered at hbefore ⊢
  obtain ⟨_ | r, q⟩ := filtered
  · exact hbefore.trans ((d.runs_runHandler entry.roles entry.handler q).trans
      (d.runs_runAfter _ _ _))
  · exact hbefore.trans (d.runs_runAfter _ _ _)

theorem callbacks_invocations (d : Dispatcher σ) (s : Surroundings σ) (x : Exchange) :
    (d.invocations s x).map (·.callback) = (d.dispatch s x).journal.map (·.callback) := by
  have hruns : (d.arrive s x).Runs (d.invocations s x) (d.respond s x).2 := by
    unfold invocations respond
    cases d.routes.route? x.request.method x.request.path with
    | none => exact d.runs_handleError (.http .notFound) _
    | some entry => exact d.runs_runRoute entry _
  rw [d.dispatch_eq_finish s x]
  exact hruns.symm

/-- What the dispatcher does by itself keeps what `P` says of runs, and `Q` holds of its own
responses. -/
structure Stable (P : Run σ → Prop) (Q : Response → Prop) : Prop where
  notes : ∀ {r r' : Run σ}, P r → r.bare = r'.bare → P r'
  streamed : Q .streamed
  ofError : ∀ e asJson, Q (.ofError e asJson)

variable {P : Run σ → Prop} {Q : Response → Prop} {p q : Passage σ}

theorem Stable.internalError (hs : Stable P Q) (asJson : Bool) : Q (.internalError asJson) :=
  hs.ofError (.panic "") asJson

/-- What a callback keeps holds after it, and of the response that its result stands for. -/
theorem Stable.invoke (hs : Stable P Q) {c : Callback σ} {course : α → Course}
    {program : Program σ α} {response? : α → Option Response} {result : Except DispatchError α}
    (hi : p.invoke c course program = (result, q))
    (hk : (p.invocation c program response?).Keeps P Q)
    (hp : P p.run) : P q.run ∧ ∀ a r, result = .ok a → response? a = some r → Q r := by
  have hrun : P (program.run p.handler p.run).2 := hk.run hp
  have hresponse : ∀ a r, (program.run p.handler p.run).1 = .ok a → response? a = some r → Q r :=
    fun a r ha hr => hk.response r ⟨a, ha, hr⟩
  unfold Passage.invoke at hi
  generalize program.run p.handler p.run = ended at hi hrun hresponse
  obtain ⟨a | e | reason, r⟩ := ended
  · cases hi
    refine ⟨hrun, ?_⟩
    rintro a r ⟨⟩ hr
    exact hresponse _ r rfl hr
  · cases hi
    exact ⟨hrun, nofun⟩
  · cases hi
    exact ⟨hs.notes hrun rfl, nofun⟩

theorem Stable.handleError (hs : Stable P Q) (d : Dispatcher σ) (e : DispatchError)
    (hk : ∀ i ∈ d.errorInvocations e p, i.Keeps P Q) (hp : P p.run) :
    Q (d.handleError e p).1 ∧ P (d.handleError e p).2.run := by
  have hsent : (p.enter .error).headersSent = p.headersSent := rfl
  unfold errorInvocations at hk
  unfold Dispatcher.handleError
  dsimp only
  rw [hsent]
  cases hh : p.headersSent with
  | true => exact ⟨hs.streamed, hs.notes hp rfl⟩
  | false =>
      rw [hh] at hk
      simp only [Bool.false_eq_true, if_false] at hk ⊢
      cases hf : d.errorHandlers.find? e.category with
      | none => exact ⟨hs.ofError _ _, hs.notes hp rfl⟩
      | some found =>
          obtain ⟨c, h⟩ := found
          rw [hf] at hk
          dsimp only
          have hq : ((p.enter .error).id = p.id) := rfl
          rw [hq]
          have hinvoked := hk _ (List.mem_singleton_self _)
          have hp₁ : P ((p.enter .error).report (.invokingHandler p.id e.category c)).run :=
            hs.notes hp rfl
          generalize (p.enter .error).report (.invokingHandler p.id e.category c) =
            p₁ at hinvoked hp₁ ⊢
          rcases hi : p₁.invoke (.errorHandler c e) (fun _ => .continued) (h e) with
            ⟨failure | r, q⟩
          · obtain ⟨hq, -⟩ := hs.invoke hi hinvoked hp₁
            dsimp only
            split
            · exact ⟨hs.streamed, hs.notes hq rfl⟩
            · exact ⟨hs.internalError _, hs.notes hq rfl⟩
          · obtain ⟨hq, hr⟩ := hs.invoke hi hinvoked hp₁
            exact ⟨hr r r rfl rfl, hq⟩

theorem Stable.runBefore (hs : Stable P Q) (d : Dispatcher σ)
    (fs : List (FilterEntry (BeforeFilter σ))) (hk : ∀ i ∈ d.beforeInvocations fs p, i.Keeps P Q)
    (hp : P p.run) :
    (∀ r, (d.runBefore fs p).1 = some r → Q r) ∧ P (d.runBefore fs p).2.run := by
  induction fs generalizing p with
  | nil => exact ⟨nofun, hp⟩
  | cons f fs ih =>
      rw [beforeInvocations] at hk
      obtain ⟨hf, hrest⟩ := List.forall_mem_cons.1 hk
      rw [Dispatcher.runBefore]
      rcases hi : p.invoke (.before f.filter) Verdict.course f.filter with
        ⟨e | verdict | response, q⟩
      · rw [hi] at hrest
        obtain ⟨hq, -⟩ := hs.invoke hi hf hp
        obtain ⟨hr, hq'⟩ := hs.handleError d e hrest (hs.notes hq rfl)
        exact ⟨fun r h => Option.some.inj h ▸ hr, hq'⟩
      · rw [hi] at hrest
        exact ih hrest (hs.invoke hi hf hp).1
      · obtain ⟨hq, hr⟩ := hs.invoke hi hf hp
        exact ⟨fun r h => hr _ r rfl h, hs.notes hq rfl⟩

theorem Stable.checkAccess (hs : Stable P Q) (d : Dispatcher σ) {roles : List String}
    {result : Except DispatchError Unit} (ha : d.checkAccess roles p = (result, q))
    (hk : ∀ i ∈ d.accessInvocations roles p, i.Keeps P Q) (hp : P p.run) : P q.run := by
  unfold Dispatcher.checkAccess at ha
  unfold accessInvocations at hk
  cases haccess : d.access with
  | none =>
      rw [haccess] at ha
      cases ha
      exact hp
  | some allow =>
      rw [haccess] at ha hk
      exact (hs.invoke ha (hk _ (List.mem_singleton_self _)) hp).1

theorem Stable.runHandler (hs : Stable P Q) (d : Dispatcher σ) (roles : List String) (h : Handler σ)
    (hk : ∀ i ∈ d.handlerInvocations roles h p, i.Keeps P Q) (hp : P p.run) :
    Q (d.runHandler roles h p).1 ∧ P (d.runHandler roles h p).2.run := by
  unfold handlerInvocations at hk
  obtain ⟨haccess, hrest⟩ := List.forall_mem_append.1 hk
  have hp₁ : P (p.enter .handler).run := hs.notes hp rfl
  unfold Dispatcher.runHandler
  dsimp only
  generalize p.enter .handler = p₁ at haccess hrest hp₁ ⊢
  rcases ha : d.checkAccess roles p₁ with ⟨e | ⟨⟩, q⟩
  · rw [ha] at hrest
    exact hs.handleError d e hrest (hs.notes (hs.checkAccess d ha haccess hp₁) rfl)
  · rw [ha] at hrest
    obtain ⟨hf, hrest⟩ := List.forall_mem_cons.1 hrest
    have hq := hs.checkAccess d ha haccess hp₁
    dsimp only
    rcases hi : q.invoke (.handler h) (fun _ => .continued) h with ⟨e | r, q'⟩
    · rw [hi] at hrest
      exact hs.handleError d e hrest (hs.notes (hs.invoke hi hf hq).1 rfl)
    · obtain ⟨hq', hr⟩ := hs.invoke hi hf hq
      exact ⟨hr r r rfl rfl, hq'⟩

theorem Stable.runAfter (hs : Stable P Q) (d : Dispatcher σ)
    (fs : List (FilterEntry (AfterFilter σ))) {r : Response}
    (hk : ∀ i ∈ d.afterInvocations fs r p, i.Keeps P Q) (hr : Q r) (hp : P p.run) :
    Q (d.runAfter fs r p).1 ∧ P (d.runAfter fs r p).2.run := by
  induction fs generalizing r p with
  | nil => exact ⟨hr, hp⟩
  | cons f fs ih =>
      rw [afterInvocations] at hk
      obtain ⟨hf, hrest⟩ := List.forall_mem_cons.1 hk
      rw [Dispatcher.runAfter]
      rcases hi : p.invoke (.after f.filter) (fun _ => .continued) (f.filter r) with ⟨e | r', q⟩
      · rw [hi] at hrest
        obtain ⟨hmapping, hrest⟩ := List.forall_mem_append.1 hrest
        obtain ⟨hr', hq⟩ := hs.handleError d e hmapping (hs.notes (hs.invoke hi hf hp).1 rfl)
        exact ih hrest hr' (hs.notes hq rfl)
      · rw [hi] at hrest
        obtain ⟨hq, hr'⟩ := hs.invoke hi hf hp
        exact ih hrest (hr' r' r' rfl rfl) hq

theorem Stable.runRoute (hs : Stable P Q) (d : Dispatcher σ) (entry : RouteEntry (Handler σ))
    (hk : ∀ i ∈ d.routeInvocations entry p, i.Keeps P Q) (hp : P p.run) :
    Q (d.runRoute entry p).1 ∧ P (d.runRoute entry p).2.run := by
  unfold routeInvocations at hk
  obtain ⟨hbefore, hrest⟩ := List.forall_mem_append.1 hk
  unfold Dispatcher.runRoute
  dsimp only
  generalize p.run.context.exchange.request.path = path at hbefore hrest ⊢
  have hfiltered := hs.runBefore d _ hbefore (hs.notes hp rfl)
  generalize d.runBefore (d.routes.beforeFor path) (p.enter .beforeFilters) =
    filtered at hfiltered hrest ⊢
  obtain ⟨_ | r, q⟩ := filtered
  · obtain ⟨hserved, hafter⟩ := List.forall_mem_append.1 hrest
    obtain ⟨hr, hq⟩ := hs.runHandler d _ _ hserved hfiltered.2
    exact hs.runAfter d _ hafter hr (hs.notes hq rfl)
  · exact hs.runAfter d _ hrest (hfiltered.1 r rfl) (hs.notes hfiltered.2 rfl)

/-- What holds when a request arrives, and is kept by each of the callbacks that are run, holds when
the response is due. -/
theorem Stable.respond (hs : Stable P Q) (d : Dispatcher σ) (s : Surroundings σ) (x : Exchange)
    (hk : ∀ i ∈ d.invocations s x, i.Keeps P Q) (hx : P (d.arrive s x).run) :
    Q (d.respond s x).1 ∧ P (d.respond s x).2.run := by
  unfold invocations at hk
  unfold Dispatcher.respond
  cases hr : d.routes.route? x.request.method x.request.path with
  | none =>
      rw [hr] at hk
      exact hs.handleError d _ hk (hs.notes hx rfl)
  | some entry =>
      rw [hr] at hk
      exact hs.runRoute d entry hk (hs.notes hx rfl)

end Dispatcher

end HttpDispatch
