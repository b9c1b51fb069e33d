import HttpDispatch.Proofs.Dispatcher.Outcome
import HttpDispatch.Proofs.Program.Alike
import HttpDispatch.Proofs.Program.Spent
import Mathlib.Data.List.Forall2

/-!
# Errors that clients cannot tell apart

An error that carries no status of its own and that nobody handles is hidden (`Dispatcher.Hidden`).
Two dispatchers are compared whose callbacks behave alike, where a callback that fails with a hidden
error may, in the other dispatcher, fail with another one or break down, and an error handler that
fails may fail in any other way (`Dispatcher.Alike`). A request that brings its own identifier is
then answered by both in the same way, to the last byte: `Dispatcher.sameResponse_dispatch`.

Stage by stage the two passages stay alike: their runs differ in what has been reported, and in
nothing else.
-/

namespace HttpDispatch

variable {σ α : Type}

/-- What the end of a program is to the dispatcher: breaking down is a failure, too. -/
def Ending.result : Ending α → Except DispatchError α
  | .ok a => .ok a
  | .failed e => .error e
  | .panicked reason => .error (.panic reason)

inductive Matches (errors : DispatchError → DispatchError → Prop) :
    Except DispatchError α → Except DispatchError α → Prop
  | ok (a : α) : Matches errors (.ok a) (.ok a)
  | error {e e' : DispatchError} (h : errors e e') : Matches errors (.error e) (.error e')

/-- The same ending as far as the dispatcher is concerned, or failures that are related. -/
def Ending.Matches (errors : DispatchError → DispatchError → Prop) (e e' : Ending α) : Prop :=
  HttpDispatch.Matches errors e.result e'.result

theorem ErrorHandlers.find?_eq_none {H : Type} {t : ErrorHandlers H} {c : Category}
    (h : ∀ b ∈ c.lineage, t.get? b = none) : t.find? c = none := by
  unfold find?
  rw [List.findSome?_eq_none_iff]
  intro b hb
  rw [h b hb]
  rfl

theorem Ending.matches_self {errors : DispatchError → DispatchError → Prop} (h : ∀ e, errors e e)
    (e : Ending α) : e.Matches errors e := by
  cases e with
  | ok a => exact .ok a
  | failed e => exact .error (h e)
  | panicked reason => exact .error (h (.panic reason))

namespace Dispatcher

/-- The error has no status of its own, and no category from its own up to the root has
a handler. -/
def Hidden (d : Dispatcher σ) (e : DispatchError) : Prop :=
  e.status? = none ∧ ∀ c ∈ e.category.lineage, d.errorHandlers.get? c = none

def Unseen (d : Dispatcher σ) (e e' : DispatchError) : Prop := e = e' ∨ d.Hidden e ∧ d.Hidden e'

/-- The two dispatchers have callbacks for the request that behave alike: they are the same in
number and place, they make the same calls, and they come to the same results up to hidden errors.
`routes` is how the handlers of the route may end in the two. -/
structure Alike (routes : Ending Response → Ending Response → Prop) (d d' : Dispatcher σ)
    (request : Request) : Prop where
  settings : d'.settings = d.settings
  codec : d'.codec = d.codec
  coder : d'.coder = d.coder
  refl : ∀ e, routes e e
  unseen : ∀ e e', routes e e' → e.Matches d.Unseen e'
  route : Option.Rel
    (fun entry entry' => entry.matched = entry'.matched ∧
      Program.Alike routes routes entry.handler entry'.handler)
    (d.routes.route? request.method request.path) (d'.routes.route? request.method request.path)
  before : List.Forall₂
    (fun f f' => Program.Alike routes (Ending.Matches d.Unseen) f.filter f'.filter)
    (d.routes.beforeFor request.path) (d'.routes.beforeFor request.path)
  after : List.Forall₂
    (fun f f' => ∀ response, Program.Alike routes (Ending.Matches d.Unseen)
      (f.filter response) (f'.filter response))
    (d.routes.afterFor request.path) (d'.routes.afterFor request.path)
  access : Option.Rel
    (fun allow allow' => ∀ roles, Program.Alike routes (Ending.Matches d.Unseen)
      (allow roles) (allow' roles))
    d.access d'.access
  errorHandlers : ∀ c, Option.Rel
    (fun h h' => h.1 = h'.1 ∧
      ∀ error, Program.Alike routes (Ending.Matches fun _ _ => True) (h.2 error) (h'.2 error))
    (d.errorHandlers.find? c) (d'.errorHandlers.find? c)

theorem alike_self (d : Dispatcher σ) (request : Request) : d.Alike Eq d request := by
  have hunseen : ∀ {α : Type} (e : Ending α), e.Matches d.Unseen e :=
    Ending.matches_self fun _ => .inl rfl
  have hrel : ∀ {A : Type} {R : A → A → Prop} (o : Option A), (∀ a, R a a) → Option.Rel R o o := by
    intro A R o h
    cases o with
    | none => exact .none
    | some a => exact .some (h a)
  refine ⟨rfl, rfl, rfl, fun _ => rfl, ?_, ?_, ?_, ?_, ?_, ?_⟩
  · rintro e _ rfl
    exact hunseen e
  · exact hrel _ fun entry => ⟨rfl, .refl (fun _ => rfl) _⟩
  · exact List.forall₂_same.2 fun f _ => .refl hunseen _
  · exact List.forall₂_same.2 fun f _ response => .refl hunseen _
  · exact hrel _ fun allow roles => .refl hunseen _
  · exact fun c => hrel _ fun h =>
      ⟨rfl, fun error => .refl (Ending.matches_self fun _ => trivial) _⟩

end Dispatcher

/-- Two passages through such dispatchers: the same state up to what has been reported, and handlers
of the route that behave alike. -/
structure Passage.Alike (routes : Ending Response → Ending Response → Prop) (p q : Passage σ) :
    Prop where
  run : p.run.unreported = q.run.unreported
  handler : Option.Rel (Program.Alike routes routes) p.handler q.handler

namespace Passage

variable {routes : Ending Response → Ending Response → Prop} {p q : Passage σ}

theorem Alike.report (h : p.Alike routes q) (e e' : LogEvent) :
    (p.report e).Alike routes (q.report e') :=
  ⟨h.run, h.handler⟩

theorem Alike.fail (h : p.Alike routes q) (e e' : DispatchError) :
    (p.fail e).Alike routes (q.fail e') :=
  ⟨h.run, h.handler⟩

theorem Alike.enter (h : p.Alike routes q) (phase : Phase) :
    (p.enter phase).Alike routes (q.enter phase) :=
  ⟨(congrArg (fun r : Run σ => r.withContext (·.enter phase)) h.run :), h.handler⟩

theorem Alike.truncate (h : p.Alike routes q) : p.truncate.Alike routes q.truncate :=
  ⟨(congrArg (fun r : Run σ => r.withContext Context.truncate) h.run :), h.handler⟩

theorem Alike.headersSent_eq (h : p.Alike routes q) : p.headersSent = q.headersSent :=
  (congrArg (fun r : Run σ => r.context.exchange.headersSent) h.run :)

theorem Alike.acceptsJson_eq (h : p.Alike routes q) : p.acceptsJson = q.acceptsJson :=
  (congrArg (fun r : Run σ => r.context.exchange.request.headers.acceptsJson) h.run :)

structure Follow (routes : Ending Response → Ending Response → Prop) (results : α → α → Prop)
    (x y : α × Passage σ) : Prop where
  result : results x.1 y.1
  passage : x.2.Alike routes y.2

@[elab_as_elim]
theorem Follow.elim {x y : α × Passage σ} {C : α × Passage σ → α × Passage σ → Prop}
    (h : Follow routes Eq x y) (hc : ∀ a p q, p.Alike routes q → C (a, p) (a, q)) : C x y := by
  obtain ⟨a, p⟩ := x
  obtain ⟨b, q⟩ := y
  obtain ⟨rfl, hpq⟩ := h
  exact hc _ p q hpq

@[elab_as_elim]
theorem Follow.cases {errors : DispatchError → DispatchError → Prop}
    {x y : Except DispatchError α × Passage σ}
    {C : Except DispatchError α × Passage σ → Except DispatchError α × Passage σ → Prop}
    (h : Follow routes (Matches errors) x y)
    (hok : ∀ a p q, p.Alike routes q → C (.ok a, p) (.ok a, q))
    (herror : ∀ e e' p q, errors e e' → p.Alike routes q → C (.error e, p) (.error e', q)) :
    C x y := by
  obtain ⟨a, p⟩ := x
  obtain ⟨b, q⟩ := y
  obtain ⟨hresult, hpq⟩ := h
  cases hresult with
  | ok a => exact hok a p q hpq
  | error he => exact herror _ _ p q he hpq

/-- Callbacks that behave alike, run on passages that are alike, come to results that are related as
their endings are. -/
theorem Alike.invoke (hrefl : ∀ e, routes e e) (h : p.Alike routes q)
    {errors : DispatchError → DispatchError → Prop} {program program' : Program σ α}
    (hprogram : Program.Alike routes (Ending.Matches errors) program program')
    (c c' : Callback σ) (course : α → Course) :
    Follow routes (Matches errors) (p.invoke c course program) (q.invoke c' course program') := by
  obtain ⟨hends, hrun⟩ := hprogram.run hrefl h.handler h.run
  unfold Passage.invoke
  generalize program.run p.handler p.run = ended at hends hrun ⊢
  generalize program'.run q.handler q.run = ended' at hends hrun ⊢
  obtain ⟨a | e | reason, r⟩ := ended <;> obtain ⟨a' | e' | reason', r'⟩ := ended' <;>
    exact ⟨hends, hrun, h.handler⟩

end Passage

namespace Dispatcher

open Passage (Follow)

variable {routes : Ending Response → Ending Response → Prop} {d d' : Dispatcher σ}
    {request : Request}
  {p q : Passage σ}

theorem Hidden.find?_eq_none {e : DispatchError} (h : d.Hidden e) :
    d.errorHandlers.find? e.category = none :=
  ErrorHandlers.find?_eq_none h.2

theorem Hidden.ofError_eq {e : DispatchError} (h : d.Hidden e) (asJson : Bool) :
    Response.ofError e asJson = .internalError asJson := by
  cases e with
  | http e => cases h.1
  | _ => rfl

theorem Alike.find?_eq_none (hd : d.Alike routes d' request) {e : DispatchError} (h : d.Hidden e) :
    d'.errorHandlers.find? e.category = none := by
  have hfind := hd.errorHandlers e.category
  rw [h.find?_eq_none] at hfind
  generalize d'.errorHandlers.find? e.category = found at hfind ⊢
  cases hfind
  rfl

/-- An error that is handled in both dispatchers is answered in the same way, even if its handlers
fail. -/
theorem Alike.follow_handleError (hd : d.Alike routes d' request) (hp : p.Alike routes q)
    (e : DispatchError) : Follow routes Eq (d.handleError e p) (d'.handleError e q) := by
  have henter := hp.enter .error
  have hfind := hd.errorHandlers e.category
  unfold handleError
  simp only
  generalize p.enter .error = p at henter ⊢
  generalize q.enter .error = q at henter ⊢
  rw [henter.headersSent_eq]
  split
  · exact ⟨rfl, (henter.report _ _).truncate⟩
  · generalize d.errorHandlers.find? e.category = found at hfind ⊢
    generalize d'.errorHandlers.find? e.category = found' at hfind ⊢
    cases hfind with
    | none =>
        simp only
        rw [henter.acceptsJson_eq]
        exact ⟨rfl, henter.report _ _⟩
    | @some h h' hh =>
        obtain ⟨c, handler⟩ := h
        obtain ⟨c', handler'⟩ := h'
        obtain ⟨rfl, hhandler⟩ := hh
        have hreport := henter.report (.invokingHandler p.id e.category c)
          (.invokingHandler q.id e.category c)
        simp only
        refine (hreport.invoke hd.refl (hhandler e) (.errorHandler c e) (.errorHandler c e)
          fun _ => .continued).cases (fun r p q h => ⟨rfl, h⟩) fun failure failure' p q _ h => ?_
        -- how the handler has failed is reported, and not looked at again
        have hfailed := h.report (.handlerFailed p.id e failure) (.handlerFailed q.id e failure')
        simp only
        rw [hfailed.headersSent_eq, hfailed.acceptsJson_eq]
        split
        · exact ⟨rfl, hfailed.truncate⟩
        · exact ⟨rfl, hfailed⟩

/-- Two errors that clients cannot tell apart are answered in the same way. -/
theorem Alike.follow_handleError_of_unseen (hd : d.Alike routes d' request) (hp : p.Alike routes q)
    {e e' : DispatchError} (he : d.Unseen e e') :
    Follow routes Eq (d.handleError e p) (d'.handleError e' q) := by
  rcases he with rfl | ⟨he, he'⟩
  · exact hd.follow_handleError hp e
  · have henter := hp.enter .error
    unfold handleError
    simp only
    generalize p.enter .error = p at henter ⊢
    generalize q.enter .error = q at henter ⊢
    rw [henter.headersSent_eq, he.find?_eq_none, hd.find?_eq_none he', he.ofError_eq,
      he'.ofError_eq, henter.acceptsJson_eq]
    split
    · exact ⟨rfl, (henter.report _ _).truncate⟩
    · exact ⟨rfl, henter.report _ _⟩

theorem Alike.follow_runBefore (hd : d.Alike routes d' request)
    {fs fs' : List (FilterEntry (BeforeFilter σ))}
    (hfs : List.Forall₂
      (fun f f' => Program.Alike routes (Ending.Matches d.Unseen) f.filter f'.filter) fs fs')
    (hp : p.Alike routes q) : Follow routes Eq (d.runBefore fs p) (d'.runBefore fs' q) := by
  induction hfs generalizing p q with
  | nil => exact ⟨rfl, hp⟩
  | @cons f f' fs fs' hf _ ih =>
      unfold runBefore
      refine (hp.invoke hd.refl hf (.before f.filter) (.before f'.filter) Verdict.course).cases
        (fun verdict p q h => ?_) fun e e' p q he h => ?_
      · cases verdict with
        | proceed => exact ih h
        | halt r => exact ⟨rfl, h.report _ _⟩
      · obtain ⟨hresponse, hmapped⟩ := hd.follow_handleError_of_unseen (h.fail e e') he
        exact ⟨congrArg some hresponse, hmapped⟩

theorem Alike.follow_checkAccess (hd : d.Alike routes d' request) (roles : List String)
    (hp : p.Alike routes q) :
    Follow routes (Matches d.Unseen) (d.checkAccess roles p) (d'.checkAccess roles q) := by
  have haccess := hd.access
  unfold checkAccess
  generalize d.access = asked at haccess ⊢
  generalize d'.access = asked' at haccess ⊢
  cases haccess with
  | none => exact ⟨.ok (), hp⟩
  | some h => exact hp.invoke hd.refl (h roles) _ _ _

theorem Alike.follow_runHandler (hd : d.Alike routes d' request) (roles : List String)
    {handler handler' : Handler σ} (hh : Program.Alike routes routes handler handler')
    (hp : p.Alike routes q) :
    Follow routes Eq (d.runHandler roles handler p) (d'.runHandler roles handler' q) := by
  have hfailed : ∀ {e e' : DispatchError} {p q : Passage σ}, d.Unseen e e' → p.Alike routes q →
      Follow routes Eq (d.handleError e (p.fail e)) (d'.handleError e' (q.fail e')) :=
    fun he h => hd.follow_handleError_of_unseen (h.fail _ _) he
  unfold runHandler
  simp only
  refine (hd.follow_checkAccess roles (hp.enter .handler)).cases (fun _ p q h => ?_)
    fun e e' p q he h => hfailed he h
  simp only
  refine (h.invoke hd.refl (hh.mono hd.unseen) (.handler handler) (.handler handler')
    fun _ => .continued).cases (fun r p q h => ⟨rfl, h⟩) fun e e' p q he h => hfailed he h

theorem Alike.follow_runAfter (hd : d.Alike routes d' request)
    {fs fs' : List (FilterEntry (AfterFilter σ))}
    (hfs : List.Forall₂
      (fun f f' => ∀ response, Program.Alike routes (Ending.Matches d.Unseen)
        (f.filter response) (f'.filter response)) fs fs')
    (response : Response) (hp : p.Alike routes q) :
    Follow routes Eq (d.runAfter fs response p) (d'.runAfter fs' response q) := by
  induction hfs generalizing p q response with
  | nil => exact ⟨rfl, hp⟩
  | @cons f f' fs fs' hf _ ih =>
      unfold runAfter
      refine (hp.invoke hd.refl (hf response) (.after f.filter) (.after f'.filter)
        fun _ => .continued).cases (fun r p q h => ih r h) fun e e' p q he h => ?_
      have hreport := h.report (.afterFilterFailed p.id e.category)
        (.afterFilterFailed q.id e'.category)
      simp only
      refine (hd.follow_handleError_of_unseen (hreport.fail e e') he).elim fun r p q h => ?_
      exact ih r (h.enter .afterFilters)

theorem Alike.follow_runRoute (hd : d.Alike routes d' request)
    {entry entry' : RouteEntry (Handler σ)} (hmatched : entry.matched = entry'.matched)
    (hhandler : Program.Alike routes routes entry.handler entry'.handler) (hp : p.Alike routes q)
    (hpath : p.run.context.exchange.request.path = request.path) :
    Follow routes Eq (d.runRoute entry p) (d'.runRoute entry' q) := by
  have hroles : entry.roles = entry'.roles := (congrArg MatchedRoute.roles hmatched :)
  have hpath' : q.run.context.exchange.request.path = request.path := by
    rw [← hpath]
    exact (congrArg (fun r : Run σ => r.context.exchange.request.path) hp.run.symm :)
  have hrest : ∀ (response : Response) {p q : Passage σ}, p.Alike routes q →
      Follow routes Eq
        (d.runAfter (d.routes.afterFor request.path) response (p.enter .afterFilters))
        (d'.runAfter (d'.routes.afterFor request.path) response (q.enter .afterFilters)) :=
    fun response _ _ h => hd.follow_runAfter hd.after response (h.enter .afterFilters)
  unfold runRoute
  simp only
  rw [hpath, hpath', hroles]
  refine (hd.follow_runBefore hd.before (hp.enter .beforeFilters)).elim fun answer p q h => ?_
  cases answer with
  | some response => exact hrest response h
  | none =>
      simp only
      refine (hd.follow_runHandler entry'.roles hhandler h).elim fun response p q h => ?_
      exact hrest response h

theorem agrees_send (r : Response) {c c' : Context} (h : c.unreported = c'.unreported) :
    Agrees Context.unreported (send r c) (send r c') := by
  unfold send
  refine (Context.agrees_commit r h).elim fun a c c' h => ?_
  cases a with
  | ok _ => exact .of_eq h
  | error e =>
      have hjson :
          c.exchange.request.headers.acceptsJson = c'.exchange.request.headers.acceptsJson :=
        (congrArg (fun c : Context => c.exchange.request.headers.acceptsJson) h :)
      have htruncate : ∀ {c c' : Context}, c.unreported = c'.unreported →
          c.truncate.unreported = c'.truncate.unreported := fun h => congrArg Context.truncate h
      simp only
      rw [Context.headersSent_eq h, hjson]
      refine .ite (fun _ => .of_eq (htruncate h)) fun _ => ?_
      have hfallback : Agrees Context.unreported
          ((c.report (.commitFailed c.id e)).commit
            (.internalError c'.exchange.request.headers.acceptsJson))
          ((c'.report (.commitFailed c'.id e)).commit
            (.internalError c'.exchange.request.headers.acceptsJson)) :=
        Context.agrees_commit _ h
      refine hfallback.elim fun a c c' h => ?_
      cases a with
      | ok _ => exact .of_eq h
      | error e => exact .of_eq (htruncate h)

/-- Two dispatches that clients cannot tell apart: the same status, in the same cases cut short, and
the same run but for the reports. -/
structure Indistinct (x y : Dispatched σ) : Prop where
  status : x.outcome.status = y.outcome.status
  truncated : x.outcome.truncated = y.outcome.truncated
  run : x.run.unreported = y.run.unreported

theorem indistinct_finish (r : Response) (hp : p.Alike routes q) :
    Indistinct (finish r p) (finish r q) := by
  have hsend := agrees_send r (Run.unreported_context hp.run)
  unfold finish
  refine hsend.elim fun status c c' h => ?_
  have htruncated : c.truncated = c'.truncated := (congrArg Context.truncated h :)
  have hstatus : c.exchange.status = c'.exchange.status :=
    (congrArg (fun c : Context => c.exchange.status) h :)
  have hclosed : (if c.truncated then c.close else c).unreported =
      (if c'.truncated then c'.close else c').unreported := by
    rw [htruncated]
    split
    · exact Context.unreported_close h
    · exact h
  have hdone : ((if c.truncated then c.close else c).enter .done).unreported =
      ((if c'.truncated then c'.close else c').enter .done).unreported :=
    congrArg (Context.enter · .done) hclosed
  refine ⟨?_, (congrArg Context.truncated hdone :), ?_⟩
  · simp only
    rw [htruncated, hstatus]
  · exact Run.unreported_withContext (f := fun _ => _) (g := fun _ => _) hp.run hdone

theorem indistinct_finish_of_follow {x y : Response × Passage σ} (h : Follow routes Eq x y) :
    Indistinct (finish x.1 x.2) (finish y.1 y.2) :=
  h.elim fun response _ _ h => indistinct_finish response h

theorem Alike.arrive (hd : d.Alike routes d' request) {s s' : Surroundings σ} {x : Exchange}
    (hid : (RequestId.inbound? x.request.headers).isSome = true) (happ : s.app = s'.app)
    (hmetrics : s.metrics = s'.metrics) (helapsed : s.elapsed = s'.elapsed)
    (hnesting : s.nesting = s'.nesting) : (d.arrive s x).Alike routes (d'.arrive s' x) := by
  obtain ⟨id, hid⟩ := Option.isSome_iff_exists.1 hid
  refine ⟨?_, .none⟩
  -- the fresh identifiers may differ, but the request does not get one
  unfold Dispatcher.arrive
  rw [hid, hd.settings, hd.codec, hd.coder, happ, hmetrics, helapsed, hnesting]
  rfl

/-- The same request is answered by both dispatchers in the same way if it starts in
the same way. -/
theorem Alike.indistinct_dispatch (hd : d.Alike routes d' request) {s s' : Surroundings σ}
    {x : Exchange} (hx : x.request = request)
    (harrive : (d.arrive s x).Alike routes (d'.arrive s' x)) :
    Indistinct (d.dispatch s x) (d'.dispatch s' x) := by
  subst hx
  have hroute := hd.route
  unfold dispatch
  simp only
  generalize hp : Passage.onContext ((d.arrive s x).report _) _ = p
  generalize hq : Passage.onContext ((d'.arrive s' x).report _) _ = q
  have hpath : p.run.context.exchange.request.path = x.request.path := by
    rw [← hp]
    rfl
  have hstart : p.Alike routes q := by
    -- the two tables may report different routes, but that is all that differs
    rw [← hp, ← hq]
    exact ⟨harrive.run, harrive.handler⟩
  generalize d.routes.route? _ _ = found at hroute ⊢
  generalize d'.routes.route? _ _ = found' at hroute ⊢
  cases hroute with
  | none =>
      exact indistinct_finish_of_follow (hd.follow_handleError (hstart.fail _ _) (.http .notFound))
  | @some entry entry' h =>
      obtain ⟨hmatched, hhandler⟩ := h
      have hrouted : Passage.Alike routes
          ({ p with handler := some entry.handler }.onContext
            fun c => { c with route := some entry.matched })
          ({ q with handler := some entry'.handler }.onContext
            fun c => { c with route := some entry'.matched }) := by
        refine ⟨Run.unreported_withContext hstart.run ?_, .some hhandler⟩
        rw [hmatched]
        exact congrArg (fun c : Context => { c with route := some entry'.matched })
          (Run.unreported_context hstart.run)
      exact indistinct_finish_of_follow (hd.follow_runRoute hmatched hhandler hrouted hpath)

/-- Errors that nobody handles, failures of error handlers and breakdowns are all the same to the
client of a request that brings its own identifier: whichever of them it is that a callback comes
to, what is sent is the same, and the response is cut short in the same cases. -/
theorem sameResponse_dispatch (d d' : Dispatcher σ) (s s' : Surroundings σ) (x : Exchange)
    (hd : d.Alike routes d' x.request)
    (hid : (RequestId.inbound? x.request.headers).isSome = true) (happ : s.app = s'.app)
    (hmetrics : s.metrics = s'.metrics) (helapsed : s.elapsed = s'.elapsed)
    (hnesting : s.nesting = s'.nesting) :
    (d.dispatch s x).run.context.exchange.SameResponse (d'.dispatch s' x).run.context.exchange ∧
      (d.dispatch s x).outcome.status = (d'.dispatch s' x).outcome.status ∧
      (d.dispatch s x).outcome.truncated = (d'.dispatch s' x).outcome.truncated := by
  have h := hd.indistinct_dispatch rfl (hd.arrive hid happ hmetrics helapsed hnesting)
  have hx := congrArg (fun r : Run σ => r.context.exchange) h.run.symm
  exact ⟨⟨(congrArg Exchange.sent hx :), (congrArg Exchange.status hx :),
    (congrArg Exchange.out hx :)⟩, h.status, h.truncated⟩

def marking : AfterFilter Unit := fun r => .done (r.setField "x-mark" "seen")

/-- A dispatcher whose only path is served by a program that ends at once, and whose responses are
marked. -/
def ending (e : Ending Response) : Dispatcher Unit :=
  { idle with
    routes := (RouteTable.empty false 8).registerValid
      [.route .get "/" [] (.ofEnding e), .after none marking] }

inductive Endings : Ending Response → Ending Response → Prop
  | refl (e : Ending Response) : Endings e e
  | differ : Endings (.failed (.io (.other "disk on fire"))) (.panicked "index out of bounds")

theorem alike_ending (hmethod : request.method = .get) (hpath : request.path = "/") :
    (ending (.failed (.io (.other "disk on fire")))).Alike Endings
      (ending (.panicked "index out of bounds")) request := by
  have hroute : ∀ e : Ending Response, (ending e).routes.route? .get "/" =
      some { method := "GET", pattern := ⟨"/", [], false, false⟩, roles := [],
             handler := .ofEnding e } := by
    intro e
    cbv
  have hbefore : ∀ e : Ending Response, (ending e).routes.beforeFor "/" = [] := by
    intro e
    cbv
  have hafter : ∀ e : Ending Response, (ending e).routes.afterFor "/" = [⟨none, marking⟩] := by
    intro e
    cbv
  have hidden : ∀ (d : Dispatcher Unit) (e : DispatchError), d.errorHandlers = .empty →
      e.status? = none → d.Hidden e := by
    intro d e hd he
    refine ⟨he, fun c _ => ?_⟩
    rw [hd]
    rfl
  refine ⟨rfl, rfl, rfl, .refl, ?_, ?_, ?_, ?_, .none, fun c => ?_⟩
  · intro e e' h
    cases h with
    | differ => exact .error (.inr ⟨hidden _ _ rfl rfl, hidden _ _ rfl rfl⟩)
    | refl e => exact e.matches_self fun _ => .inl rfl
  · rw [hmethod, hpath, hroute, hroute]
    exact .some ⟨rfl, Program.Alike.ends Endings.differ⟩
  · rw [hpath, hbefore, hbefore]
    exact .nil
  · rw [hpath, hafter, hafter]
    refine .cons (fun r => ?_) .nil
    change Program.Alike _ _ (.ofEnding (.ok (r.setField "x-mark" "seen")))
      (.ofEnding (.ok (r.setField "x-mark" "seen")))
    exact .ends (.ok _)
  · have hnone : (ErrorHandlers.empty : ErrorHandlers (ErrorHandler Unit)).find? c = none :=
      ErrorHandlers.find?_eq_none fun _ _ => rfl
    change Option.Rel _ (ErrorHandlers.empty.find? c) (ErrorHandlers.empty.find? c)
    rw [hnone]
    exact .none

def identified : Exchange :=
  .inMemory { method := .get, path := "/",
              headers :=
                Headers.empty.insert .requestId (.ofString "01ARZ3NDEKTSV4RRFFQ69G5FAV") } [] {}

/-- Neither the failure nor the breakdown shows, but the mark does. -/
theorem sameResponse_dispatch_identified :
    (RequestId.inbound? identified.request.headers).isSome = true ∧
      ((ending (.failed (.io (.other "disk on fire")))).dispatch
          { app := (), freshId := ⟨0⟩ } identified).run.context.exchange.SameResponse
        ((ending (.panicked "index out of bounds")).dispatch
          { app := (), freshId := ⟨1⟩ } identified).run.context.exchange ∧
      ((ending (.failed (.io (.other "disk on fire")))).dispatch
          { app := (), freshId := ⟨0⟩ } identified).run.context.exchange.sentField? "x-mark" =
        some "seen" ∧
      ((ending (.failed (.io (.other "disk on fire")))).dispatch
          { app := (), freshId := ⟨0⟩ } identified).run.context.exchange.out.written =
        Text.encode "Internal server error" := by
  have hid : (RequestId.inbound? identified.request.headers).isSome = true := by decide +kernel
  obtain ⟨hsame, -, -⟩ := sameResponse_dispatch _ _ { app := (), freshId := ⟨0⟩ }
    { app := (), freshId := ⟨1⟩ } identified (alike_ending rfl rfl) hid rfl rfl rfl rfl
  exact ⟨hid, hsame, by decide +kernel, by decide +kernel⟩

end Dispatcher

end HttpDispatch
