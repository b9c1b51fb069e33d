import HttpDispatch.Proofs.Dispatcher.Outcome
import HttpDispatch.Proofs.Program.Unwritten

/-!
# Handlers that fail on a response stream that they have not written to

A handler that opens a response stream and then fails, or breaks down, lets the stream go before its
failure is looked at. By then the head of an empty response has been sent, so nobody is asked for a
response to the failure, and the empty one is cut short: its status is the one that was pending when
the stream was opened. The filters after the handler run as ever, but on a run that is spent.
-/

namespace HttpDispatch

variable {σ : Type}

theorem Run.staysSpent_of_bare_eq {r r' : Run σ} (h : r.bare = r'.bare) : r.StaysSpent r' := by
  have hx := congrArg (fun r => r.context.exchange) h.symm
  exact staysSpent_of_same (congrArg Run.stream h.symm :) (congrArg Run.events h.symm :)
    ⟨(congrArg Exchange.sent hx :), (congrArg Exchange.status hx :), (congrArg Exchange.out hx :)⟩

namespace Journal

variable {d : Dispatcher σ} {route : Option (Handler σ)} {r r' : Run σ}

theorem Ran.staysSpent {c : Callback σ} {course : Course} (h : Ran d route c r course r') :
    r.StaysSpent r' := by
  cases h with
  | before f r => exact Program.staysSpent_run route _ r
  | access allow roles r h => exact Program.staysSpent_run route _ r
  | handler h r => exact Program.staysSpent_run route _ r
  | after f response r => exact Program.staysSpent_run route _ r
  | errorHandler c e h r hc => exact Program.staysSpent_run route _ r

/-- Whatever a journal tells from a spent run on, the response stays as it is, and every entry sees
that the head has been sent. -/
theorem Tells.of_spent {steps : List (Step σ)} (h : Tells d route r steps r') (hr : r.Spent) :
    (r'.Spent ∧ r.context.exchange.SameResponse r'.context.exchange) ∧
      ∀ s ∈ steps, s.headersSent = true := by
  induction h with
  | nil h =>
      refine ⟨Run.staysSpent_of_bare_eq h hr, ?_⟩
      rintro s ⟨⟩
  | @cons r r₁ r₂ r' s steps h ran sent rest ih =>
      have hs₂ := (Run.staysSpent_of_bare_eq h).trans ran.staysSpent
      obtain ⟨hr', hsteps⟩ := ih (hs₂ hr).1
      refine ⟨hs₂.trans (fun _ => hr') hr, ?_⟩
      rw [List.forall_mem_cons]
      exact ⟨sent.trans (hs₂ hr).1.headersSent, hsteps⟩

theorem Answered.eq_of_headersSent {main steps : List (Step σ)} (h : Answered d main steps)
    (hs : ∀ s ∈ main, s.headersSent = true) : steps = main := by
  induction h with
  | nil => rfl
  | @cons s reply main steps h rest ih =>
      obtain ⟨hs, hmain⟩ := List.forall_mem_cons.1 hs
      have hreply : reply = [] := by
        unfold Reply at h
        split at h
        · rw [hs] at h
          exact h
        · exact h
      rw [hreply, ih hmain, List.nil_append]

theorem Answered.subset {main steps : List (Step σ)} (h : Answered d main steps) :
    main ⊆ steps := by
  induction h with
  | nil => exact List.Subset.refl _
  | @cons s reply main steps h rest ih =>
      exact List.cons_subset_cons s (List.subset_append_of_subset_right reply ih)

end Journal

namespace Dispatcher

open Journal Passage

/-- Nothing is sent in answer to a response that has been sent already. -/
theorem commit_of_headersSent {c : Context} (h : c.exchange.headersSent = true) (r : Response) :
    (c.commit r).2 = c := by
  unfold Context.commit
  split
  · rfl
  · rw [Context.commitStreamed, if_pos h]
  · rw [Context.commitBuffered, Context.setStatus_of_headersSent h]
    rfl

theorem sameResponse_send {c : Context} (h : c.exchange.headersSent = true) (r : Response) :
    c.exchange.SameResponse (send r c).2.exchange := by
  have hcommit := commit_of_headersSent h r
  unfold send
  generalize c.commit r = attempt at hcommit ⊢
  obtain ⟨e | ⟨⟩, c₁⟩ := attempt
  · cases hcommit
    simp only
    rw [if_pos h]
    exact ⟨rfl, rfl, rfl⟩
  · cases hcommit
    exact ⟨rfl, rfl, rfl⟩

/-- The end of a dispatch whose response has been cut short: what has been sent stays, and its
status is reported. -/
theorem finish_of_spent (response : Response) {p : Passage σ} (hspent : p.run.Spent)
    (ht : p.run.context.truncated = true) :
    (finish response p).outcome.truncated = true ∧
      (finish response p).outcome.status = p.run.context.exchange.status ∧
      (finish response p).run.context.exchange.sent = p.run.context.exchange.sent ∧
      (finish response p).run.context.exchange.out.written =
        p.run.context.exchange.out.written := by
  have hsame := sameResponse_send hspent.headersSent response
  have ht' := (send_moves response p.run.context).1.truncated ht
  unfold finish
  generalize send response p.run.context = result at hsame ht' ⊢
  obtain ⟨status, c⟩ := result
  have htc : c.truncated = true := ht'
  have hclose := c.released_close
  simp only [htc, Bool.or_true, if_true]
  refine ⟨c.truncated_close.trans htc, hsame.status, hclose.sent.trans hsame.sent, ?_⟩
  exact hclose.written.trans (congrArg Writer.written hsame.out)

/-- Filters after the handler that find a spent run run as ever, but add nothing to the response
that has been cut short, and none of their failures is mapped. -/
theorem finish_runAfter_of_spent (d : Dispatcher σ) (fs : List (FilterEntry (AfterFilter σ)))
    (response : Response) {p : Passage σ} (hspent : p.run.Spent)
    (ht : p.run.context.truncated = true) {y : Dispatched σ}
    (hy : finish (d.runAfter fs response p).1 (d.runAfter fs response p).2 = y) :
    y.outcome.truncated = true ∧ y.outcome.status = p.run.context.exchange.status ∧
      y.run.context.exchange.sent = p.run.context.exchange.sent ∧
      y.run.context.exchange.out.written = p.run.context.exchange.out.written ∧
      ∃ steps, y.journal = p.journal ++ steps ∧
        steps.map (·.callback) = fs.map fun f => .after f.filter := by
  obtain ⟨main, steps, hcallbacks, hanswered, hleads⟩ := d.leads_runAfter fs response p
  obtain ⟨⟨hspent', hsame⟩, hsent⟩ := hleads.tells.of_spent hspent
  have hsteps : steps = main :=
    hanswered.eq_of_headersSent fun s hs => hsent s (hanswered.subset hs)
  have ht' := (hleads.advances hspent.sound).1.truncated ht
  have hjournal := hleads.journal
  generalize d.runAfter fs response p = result at hspent' hsame ht' hjournal hy
  obtain ⟨response', q⟩ := result
  obtain ⟨h₁, h₂, h₃, h₄⟩ := finish_of_spent response' hspent' ht'
  rw [← hy]
  refine ⟨h₁, h₂.trans hsame.status, h₃.trans hsame.sent, ?_, steps, ?_, ?_⟩
  · exact h₄.trans (congrArg Writer.written hsame.out)
  · exact hjournal
  · rw [hsteps]
    exact hcallbacks

/-- A request has a route and has passed the filters before its handler and the check of its roles.
The handler is called on the passage `p`. -/
structure AtHandler (d : Dispatcher σ) (s : Surroundings σ) (x : Exchange)
    (entry : RouteEntry (Handler σ)) (p : Passage σ) : Prop where
  route : d.routes.route? x.request.method x.request.path = some entry
  passed : ∃ q, d.runBefore (d.routes.beforeFor x.request.path)
      ((d.routed s x entry).enter .beforeFilters) = (none, q) ∧
    d.checkAccess entry.roles (q.enter .handler) = (.ok (), p)

variable {d : Dispatcher σ} {s : Surroundings σ} {x : Exchange} {entry : RouteEntry (Handler σ)}
  {p : Passage σ}

/-- Until the handler is called, no more has happened than programs may do. -/
theorem AtHandler.leads (h : AtHandler d s x entry p) :
    p.handler = some entry.handler ∧ (d.arrive s x).run.Advances p.run := by
  obtain ⟨q, hbefore, haccess⟩ := h.passed
  have hrouted := (d.leads_routed s x entry).trans (leads_enter d _ .beforeFilters)
  obtain ⟨main, steps, -, -, -, hq⟩ := d.leads_runBefore (d.routes.beforeFor x.request.path)
    ((d.routed s x entry).enter .beforeFilters)
  rw [hbefore] at hq
  have henter := leads_enter d q .handler
  have hchecked : ∃ steps, (q.enter .handler).Leads d steps p := by
    unfold checkAccess at haccess
    split at haccess
    · cases haccess
      exact ⟨[], .refl d _⟩
    · next allow ha =>
      exact ⟨_, leads_invoke (fun r => .access allow entry.roles r ha) haccess⟩
  obtain ⟨steps', hp⟩ := hchecked
  have hleads := hrouted.trans (hq.trans (henter.trans hp))
  exact ⟨hleads.handler, hleads.advances⟩

/-- From the call of the handler on, a dispatch goes through the filters after it to its end. -/
theorem AtHandler.dispatch_eq (h : AtHandler d s x entry p) {e : DispatchError} {q : Passage σ}
    (hq : p.invoke (.handler entry.handler) (fun _ => .continued) entry.handler = (.error e, q)) :
    d.dispatch s x =
      finish
        (d.runAfter (d.routes.afterFor x.request.path) (d.handleError e (q.fail e)).1
          ((d.handleError e (q.fail e)).2.enter .afterFilters)).1
        (d.runAfter (d.routes.afterFor x.request.path) (d.handleError e (q.fail e)).1
          ((d.handleError e (q.fail e)).2.enter .afterFilters)).2 := by
  obtain ⟨q', hbefore, haccess⟩ := h.passed
  have hpath : (d.routed s x entry).run.context.exchange.request.path = x.request.path := rfl
  rw [dispatch_of_route h.route]
  unfold runRoute runHandler
  simp only
  rw [hpath, hbefore]
  simp only
  rw [haccess]
  simp only
  rw [hq]

theorem invoke_of_failed {α : Type} (c : Callback σ) (program : Program σ α) {e : DispatchError}
    (h : ((program.run p.handler p.run).1.course fun _ => .continued) = .failed e) :
    ∃ q, p.invoke c (fun _ => .continued) program = (.error e, q) ∧
      q.journal = p.journal ++ [⟨c, .failed e, q.headersSent⟩] ∧
      (program.run p.handler p.run).2.bare = q.run.bare := by
  unfold Passage.invoke
  generalize program.run p.handler p.run = ended at h ⊢
  obtain ⟨a | e' | reason, r⟩ := ended
  · cases h
  · cases h
    exact ⟨_, rfl, rfl, rfl⟩
  · cases h
    exact ⟨_, rfl, rfl, rfl⟩

/-- A failure after the head has been sent cuts the response short. -/
theorem handleError_of_headersSent (d : Dispatcher σ) (e : DispatchError) {p : Passage σ}
    (h : p.headersSent = true) :
    d.handleError e p =
      (.streamed,
        ((p.enter .error).report (.errorAfterHeaders (p.enter .error).id e)).truncate) := by
  have h' : (p.enter .error).headersSent = true := h
  unfold handleError
  simp only
  rw [if_pos h']

/-- A handler, run on `r`, opens a response stream on the run `r₁` while the head has not been sent.
From then on it writes nothing to the stream and does not end it, and in the end it fails, or breaks
down. -/
structure FailsUnwritten (handler : Handler σ) (r r₁ : Run σ) (e : DispatchError) : Prop where
  opens : ∃ next, Program.Reaches (Program.runRoute (some handler) r.nesting.depth) (handler, r)
      (.call .openStream next, r₁) ∧
    ∀ c next' r', Program.Reaches (Program.runRoute (some handler) r.nesting.depth)
      (next (.ok ()), r₁.openStream.2) (.call c next', r') → c.Quiet
  headersSent : r₁.dropStream.context.exchange.headersSent = false
  fails : ((handler.run (some handler) r).1.course fun _ => .continued) = .failed e

/-- A handler that fails on a response stream that it has not written to gets no response to its
failure. The client is sent the head that was pending when the stream was opened, with an empty
body; the response counts as cut short, and nobody is asked about the failure. -/
theorem emptied_dispatch (hat : AtHandler d s x entry p) (hopen : x.closed = false)
    (hroom : x.out.limit = none) {r : Run σ} {e : DispatchError}
    (hfails : FailsUnwritten entry.handler p.run r e) :
    (d.dispatch s x).outcome.truncated = true ∧
      (d.dispatch s x).outcome.status = r.openStream.2.context.exchange.status ∧
      (d.dispatch s x).run.context.exchange.sent =
        some r.openStream.2.context.exchange.emptyHead ∧
      (d.dispatch s x).run.context.exchange.out.written =
        x.out.written ++ x.transport.headBytes r.openStream.2.context.exchange.emptyHead ∧
      ∃ steps, (d.dispatch s x).journal =
          p.journal ++ ⟨.handler entry.handler, .failed e, true⟩ :: steps ∧
        steps.map (·.callback) =
          (d.routes.afterFor x.request.path).map fun f => .after f.filter := by
  obtain ⟨hhandler, hadvances⟩ := hat.leads
  obtain ⟨-, hsound⟩ := hadvances (d.sound_arrive s x)
  obtain ⟨next, hreach, hquiet⟩ := hfails.opens
  -- up to the opening of the stream the exchange stays ready
  have hreached := Program.advances_of_reaches
    (Program.related_runRoute Run.advances_perform (some entry.handler) _) hreach
  have hx : x.Moves r.dropStream.context.exchange :=
    ((hadvances.trans (hreached.trans r.advances_dropStream)) (d.sound_arrive s x)).1.exchange
  obtain ⟨htransport, -, hclosed, hlimit⟩ := hx.frame
  have hready : r.dropStream.context.exchange.Ready :=
    ⟨hclosed.trans hopen, hfails.headersSent, hlimit.trans hroom⟩
  have hemptied := Program.emptied_run hsound hreach hready hquiet
  have hwritten : x.out.written ++
        x.transport.headBytes r.openStream.2.context.exchange.emptyHead =
      r.openStream.2.context.exchange.out.written ++
        r.openStream.2.context.exchange.transport.headBytes
          r.openStream.2.context.exchange.emptyHead := by
    rw [Run.openStream_of_headersSent_eq_false hfails.headersSent, ← htransport,
      ← hx.out_eq_of_headersSent_eq_false hfails.headersSent]
    rfl
  rw [hwritten]
  generalize r.openStream.2.context.exchange = y at hemptied ⊢
  -- the handler fails, and its failure is noted
  have hfailed :
      ((entry.handler.run p.handler p.run).1.course fun _ => .continued) = .failed e := by
    rw [hhandler]
    exact hfails.fails
  obtain ⟨q, hq, hjournal, hbare⟩ :=
    invoke_of_failed (.handler entry.handler) entry.handler hfailed
  rw [hhandler] at hbare
  have hq' := hemptied.of_staysSpent (Run.staysSpent_of_bare_eq hbare)
  have hdispatch := hat.dispatch_eq hq
  rw [d.handleError_of_headersSent e (p := q.fail e) hq'.spent.headersSent] at hdispatch
  generalize hafter : Passage.enter _ .afterFilters = q₁ at hdispatch
  have hq₁ : q₁.run.Emptied y := hq'.of_staysSpent (Run.staysSpent_of_bare_eq (hafter ▸ rfl))
  have hjournal₁ : q₁.journal = q.journal := hafter ▸ rfl
  have htruncated : q₁.run.context.truncated = true := hafter ▸ rfl
  obtain ⟨h₁, hstatus, hsent, hout, steps, hsteps, hcallbacks⟩ :=
    d.finish_runAfter_of_spent _ _ hq₁.spent htruncated hdispatch.symm
  refine ⟨h₁, hstatus.trans hq₁.status, hsent.trans hq₁.sent, hout.trans hq₁.written, steps, ?_,
    hcallbacks⟩
  have hheaders : q.headersSent = true := hq'.spent.headersSent
  rw [hsteps, hjournal₁, hjournal, hheaders, List.append_assoc]
  rfl

/-- A dispatcher with a single handler, for the only path that it knows. -/
def serving (h : Handler Unit) : Dispatcher Unit :=
  { idle with routes := (RouteTable.empty false 8).registerValid [.route .get "/" [] h] }

def servingEntry (h : Handler Unit) : RouteEntry (Handler Unit) :=
  { method := "GET", pattern := ⟨"/", [], false, false⟩, roles := [], handler := h }

def servingPassage (h : Handler Unit) (x : Exchange) : Passage Unit :=
  (((serving h).routed { app := (), freshId := ⟨0⟩ } x (servingEntry h)).enter .beforeFilters).enter
    .handler

theorem route?_serving (h : Handler Unit) :
    (serving h).routes.route? .get "/" = some (servingEntry h) := by cbv

theorem beforeFor_serving (h : Handler Unit) : (serving h).routes.beforeFor "/" = [] := by cbv

theorem afterFor_serving (h : Handler Unit) : (serving h).routes.afterFor "/" = [] := by cbv

theorem atHandler_serving (h : Handler Unit) {x : Exchange} (hmethod : x.request.method = .get)
    (hpath : x.request.path = "/") :
    AtHandler (serving h) { app := (), freshId := ⟨0⟩ } x
      (servingEntry h) (servingPassage h x) := by
  refine ⟨?_, _, ?_, rfl⟩
  · rw [hmethod, hpath]
    exact route?_serving h
  · rw [hpath, beforeFor_serving]
    rfl

/-- A handler that opens a response stream and then refuses the request. -/
def refusal : Handler Unit := .call .openStream fun _ => .fail (.http .forbidden)

def refusing : Dispatcher Unit :=
  { idle with routes := (RouteTable.empty false 8).registerValid [.route .get "/" [] refusal] }

def refusingEntry : RouteEntry (Handler Unit) :=
  { method := "GET", pattern := ⟨"/", [], false, false⟩, roles := [], handler := refusal }

def asking : Exchange := .inMemory { method := .get, path := "/" } [] {}

def refusingPassage : Passage Unit :=
  ((refusing.routed { app := (), freshId := ⟨0⟩ } asking refusingEntry).enter .beforeFilters).enter
    .handler

theorem atHandler_refusing :
    AtHandler refusing { app := (), freshId := ⟨0⟩ } asking refusingEntry refusingPassage :=
  atHandler_serving refusal rfl rfl

theorem failsUnwritten_refusing :
    FailsUnwritten refusal refusingPassage.run refusingPassage.run (.http .forbidden) := by
  refine ⟨⟨_, .refl, ?_⟩, rfl, rfl⟩
  intro c next' r' h
  rcases h.cases_head with h | ⟨_, h, -⟩
  · cases h
  · cases h

/-- The refusal does not become a response: the client is told that all is well. -/
theorem emptied_dispatch_refusing :
    (refusing.dispatch { app := (), freshId := ⟨0⟩ } asking).outcome.truncated = true ∧
      (refusing.dispatch { app := (), freshId := ⟨0⟩ } asking).outcome.status = .ok ∧
      (refusing.dispatch { app := (), freshId := ⟨0⟩ } asking).run.context.exchange.out.written =
        [] := by
  obtain ⟨htruncated, hstatus, -, hwritten, -⟩ :=
    emptied_dispatch atHandler_refusing rfl rfl failsUnwritten_refusing
  exact ⟨htruncated, hstatus, hwritten⟩

end Dispatcher

end HttpDispatch
