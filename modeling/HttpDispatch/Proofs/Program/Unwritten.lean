import HttpDispatch.Proofs.Exchange.Head
import HttpDispatch.Proofs.Program.Spent

/-!
# Response streams that nothing is written to

A program that is run goes from call to call (`Program.Next`). One that has opened a response stream
and then makes only quiet calls, which write nothing and do not end the stream, leaves the exchange
as it was until the stream is let go (`Run.Unwritten`). Letting it go ends it, and that sends the
pending head with an empty body (`Run.Emptied`); from then on the run is spent. It makes no
difference why the stream is let go: a program that fails or breaks down has its head sent in the
same way.
-/

namespace HttpDispatch

variable {σ α β : Type}

namespace Program

inductive Next (route : Run σ → Option (Ending Response) × Run σ) :
    Program σ α × Run σ → Program σ α × Run σ → Prop
  | call (c : Call σ) (next : c.Answer → Program σ α) (r : Run σ) :
    Next route (.call c next, r) (next (r.perform c).1, (r.perform c).2)
  | absent {next : Option (Except DispatchError Response) → Program σ α} {r r' : Run σ}
    (h : route r.dropStream = (none, r')) : Next route (.callRoute next, r) (next none, r')
  | returned {next : Option (Except DispatchError Response) → Program σ α} {r r' : Run σ}
    {a : Response} (h : route r.dropStream = (some (.ok a), r')) :
    Next route (.callRoute next, r) (next (some (.ok a)), r')
  | refused {next : Option (Except DispatchError Response) → Program σ α} {r r' : Run σ}
    {e : DispatchError} (h : route r.dropStream = (some (.failed e), r')) :
    Next route (.callRoute next, r) (next (some (.error e)), r')

abbrev Reaches (route : Run σ → Option (Ending Response) × Run σ) :
    Program σ α × Run σ → Program σ α × Run σ → Prop :=
  Relation.ReflTransGen (Next route)

variable {route : Run σ → Option (Ending Response) × Run σ} {a b : Program σ α × Run σ}

theorem runWith_of_next (h : Next route a b) : a.1.runWith route a.2 = b.1.runWith route b.2 := by
  cases h with
  | call c next r => rfl
  | absent h => rw [runWith, h]
  | returned h => rw [runWith, h]
  | refused h => rw [runWith, h]

/-- A program that is run goes on as it does from any point that it reaches. -/
theorem runWith_of_reaches (h : Reaches route a b) :
    a.1.runWith route a.2 = b.1.runWith route b.2 := by
  induction h with
  | refl => rfl
  | tail _ h ih => exact ih.trans (runWith_of_next h)

theorem advances_of_next (hroute : ∀ r : Run σ, r.Advances (route r).2) (h : Next route a b) :
    a.2.Advances b.2 := by
  cases h with
  | call c next r => exact r.advances_perform c
  | @absent next r r' h =>
      have hr := r.advances_dropStream.trans (hroute r.dropStream)
      rwa [h] at hr
  | @returned next r r' a h =>
      have hr := r.advances_dropStream.trans (hroute r.dropStream)
      rwa [h] at hr
  | @refused next r r' e h =>
      have hr := r.advances_dropStream.trans (hroute r.dropStream)
      rwa [h] at hr

theorem advances_of_reaches (hroute : ∀ r : Run σ, r.Advances (route r).2)
    (h : Reaches route a b) : a.2.Advances b.2 := by
  induction h with
  | refl => exact .refl _
  | tail _ h ih => exact ih.trans (advances_of_next hroute h)

end Program

/-- A call that writes nothing to the response stream and does not end it. -/
def Call.Quiet : Call σ → Prop
  | .streamWrite b | .streamWriteAll b => b = []
  | .streamFinish => False
  | _ => True

namespace Exchange

def emptyHead (x : Exchange) : ResponseHead :=
  (x.withPending (·.insert .contentLength (.ofNat 0))).nextHead

end Exchange

theorem ResponseStream.drop_of_pending {s : ResponseStream} {x : Exchange} (hs : s.sink = .pending)
    (hx : x.Ready) :
    (s.drop x).2.sent = some x.emptyHead ∧ (s.drop x).2.status = x.status ∧
      (s.drop x).2.out.written =
        x.out.written ++ x.transport.headBytes x.emptyHead := by
  have hready : (x.withPending (·.insert .contentLength (.ofNat 0))).Ready :=
    ⟨hx.closed, hx.headersSent, hx.limit⟩
  obtain ⟨z, hsend, hz⟩ := hready.sendHeaders
  have hend : s.endSink x = (.ok (), z) := by
    unfold endSink
    rw [hs]
    simp only
    rw [if_neg (Bool.eq_false_iff.1 hx.headersSent), hsend]
    rfl
  have hopen : s.isClosed = false := by
    unfold isClosed
    rw [hs]
    rfl
  unfold drop finish
  rw [hopen, hend]
  exact hz

namespace Run

variable {y : Exchange} {r r' : Run σ}

/-- A response stream is open on `y`, and nothing has been written to it. -/
structure Unwritten (y : Exchange) (r : Run σ) : Prop where
  stream : ∃ s, r.stream = some s ∧ s.sink = .pending
  events : r.events = []
  exchange : r.context.exchange = { y with log := r.context.exchange.log }

/-- An empty response has been sent in place of the one that was pending on `y`, and the run is
spent. -/
structure Emptied (y : Exchange) (r : Run σ) : Prop where
  spent : r.Spent
  sent : r.context.exchange.sent = some y.emptyHead
  status : r.context.exchange.status = y.status
  written : r.context.exchange.out.written =
    y.out.written ++ y.transport.headBytes y.emptyHead

theorem Emptied.of_staysSpent (h : r.Emptied y) (hr : r.StaysSpent r') : r'.Emptied y := by
  obtain ⟨hspent, hsame⟩ := hr h.spent
  refine ⟨hspent, hsame.sent.trans h.sent, hsame.status.trans h.status, ?_⟩
  rw [hsame.out]
  exact h.written

theorem Unwritten.emptied_dropStream (h : r.Unwritten y) (hy : y.Ready) :
    r.dropStream.Emptied y := by
  obtain ⟨s, hs, hsink⟩ := h.stream
  have hready : r.context.exchange.Ready := by
    rw [h.exchange]
    exact ⟨hy.closed, hy.headersSent, hy.limit⟩
  have hhead : r.context.exchange.emptyHead = y.emptyHead := by
    rw [h.exchange]
    rfl
  obtain ⟨hsent, hstatus, hwritten⟩ := ResponseStream.drop_of_pending hsink hready
  rw [hhead, h.exchange] at hsent hwritten
  rw [h.exchange] at hstatus
  unfold dropStream
  rw [hs, h.exchange]
  refine ⟨⟨rfl, h.events, ?_⟩, hsent, hstatus, hwritten⟩
  exact Option.isSome_iff_exists.2 ⟨_, hsent⟩

/-- A stream can be opened as long as the head has not been sent. -/
theorem openStream_of_headersSent_eq_false
    (h : r.dropStream.context.exchange.headersSent = false) :
    r.openStream = (.ok (), { r.dropStream with
      context := r.dropStream.context.stamp
      stream := some { coder := r.dropStream.context.coder,
                       settings := r.dropStream.context.settings.compression } }) := by
  unfold openStream
  rw [if_neg (Bool.eq_false_iff.1 h)]

theorem dropStream_dropStream (r : Run σ) : r.dropStream.dropStream = r.dropStream :=
  dropStream_of_eq_none r.stream_dropStream

theorem onContext_dropStream {ε : Type} (r : Run σ) (f : Context → Attempt Context ε α) :
    r.dropStream.onContext f = r.onContext f := by
  unfold onContext
  rw [dropStream_dropStream]

theorem Unwritten.of_report (h : r.Unwritten y) (hstream : r'.stream = r.stream)
    (hevents : r'.events = r.events)
    (hx : r'.context.exchange = { r.context.exchange with log := r'.context.exchange.log }) :
    r'.Unwritten y := by
  refine ⟨hstream ▸ h.stream, hevents.trans h.events, ?_⟩
  rw [hx, h.exchange]

theorem Unwritten.onStream {f : ResponseStream → Exchange → ResponseStream.On α} (h : r.Unwritten y)
    (hf : ∀ (s : ResponseStream) (x : Exchange), s.sink = .pending → (f s x).2 = (s, x)) :
    (r.onStream f).2.Unwritten y := by
  obtain ⟨s, hs, hsink⟩ := h.stream
  have hkeep := hf s r.context.exchange hsink
  unfold Run.onStream
  rw [hs]
  simp only
  generalize f s r.context.exchange = attempt at hkeep ⊢
  obtain ⟨result, s', x'⟩ := attempt
  cases hkeep
  exact ⟨⟨s, rfl, hsink⟩, h.events, h.exchange⟩

/-- A quiet call leaves the stream unwritten, unless it lets it go. -/
theorem Unwritten.perform (h : r.Unwritten y) (hy : y.Ready) {c : Call σ} (hc : c.Quiet) :
    (r.perform c).2.Unwritten y ∨ (r.perform c).2.Emptied y := by
  -- a call on the request lets the stream go before it does anything else
  have hgone : ∀ c : Call σ, r.dropStream.perform c = r.perform c → (r.perform c).2.Emptied y := by
    intro c heq
    rw [← heq]
    exact (h.emptied_dropStream hy).of_staysSpent (staysSpent_perform _ c)
  cases c with
  | view => exact .inr (h.emptied_dropStream hy)
  | streamDrop => exact .inr (h.emptied_dropStream hy)
  | setAttributes a =>
      refine .inr (hgone _ ?_)
      simp only [Run.perform]
      rw [dropStream_dropStream]
  | bodyBytes => exact .inr (hgone _ (onContext_dropStream r Context.bodyBytes))
  | bodyJson => exact .inr (hgone _ (onContext_dropStream r Context.bodyJson))
  | setStatus s => exact .inr (hgone _ (onContext_dropStream r (·.setStatus s)))
  | setField n v => exact .inr (hgone _ (onContext_dropStream r (·.setField n v)))
  | serveRange source total contentType =>
      exact .inr (hgone _ (onContext_dropStream r (·.serveRange source total contentType)))
  | openStream =>
      refine .inr (hgone _ ?_)
      simp only [Run.perform, openStream]
      rw [dropStream_dropStream]
  | openEvents =>
      refine .inr (hgone _ ?_)
      simp only [Run.perform, openEvents]
      rw [onContext_dropStream]
  | streamWrite b =>
      cases (hc : b = [])
      exact .inl (h.onStream fun s x _ => by rw [ResponseStream.write, if_pos rfl])
  | streamWriteAll b =>
      cases (hc : b = [])
      exact .inl (h.onStream fun s x _ => by rw [ResponseStream.writeAll, if_pos rfl])
  | streamFlush =>
      refine .inl (h.onStream ?_)
      intro s x hs
      rw [ResponseStream.flush, hs]
  | streamFinish => exact absurd hc not_false
  | events n c =>
      simp only [Run.perform, callEvents]
      rw [onEvents_of_eq_nil h.events]
      exact .inl h
  | keepAlive n others =>
      obtain ⟨app, elsewhere, heq⟩ := keepAlive_of_eq_nil h.events n others
      simp only [Run.perform]
      rw [heq]
      exact .inl (h.of_report rfl rfl rfl)
  | dropEvents n =>
      simp only [Run.perform]
      rw [dropEvents_of_eq_nil h.events]
      exact .inl h
  | report e => exact .inl (h.of_report rfl rfl rfl)
  | modify f => exact .inl (h.of_report rfl rfl rfl)
  | modifyMetrics f => exact .inl (h.of_report rfl rfl rfl)
  | streamView => exact .inl h
  | eventsClosed n => exact .inl h
  | get => exact .inl h
  | metrics => exact .inl h
  | elapsed => exact .inl h

/-- Whatever is left open at the end, the response is empty then. -/
theorem emptied_settle (h : r.Unwritten y ∨ r.Emptied y) (hy : y.Ready) (first : Nat) :
    (r.settle first).Emptied y := by
  rcases h with h | h
  · have hsettle : r.dropStream.settle first = r.settle first := by
      unfold settle
      rw [dropStream_dropStream]
    rw [← hsettle]
    exact (h.emptied_dropStream hy).of_staysSpent (related_settle staysSpent_perform _ first)
  · exact h.of_staysSpent (related_settle staysSpent_perform _ first)

end Run

namespace Program

variable {route : Run σ → Option (Ending Response) × Run σ} {y : Exchange}

/-- A program that makes only quiet calls while the stream is open leaves the stream unwritten,
unless it lets it go. -/
theorem unwritten_runWith (hroute : ∀ r : Run σ, r.StaysSpent (route r).2) (hy : y.Ready)
    (p : Program σ α) {r : Run σ} (h : r.Unwritten y)
    (hquiet : ∀ c next r', Reaches route (p, r) (.call c next, r') → c.Quiet) :
    (p.runWith route r).2.Unwritten y ∨ (p.runWith route r).2.Emptied y := by
  induction p generalizing r with
  | done a => exact .inl h
  | fail e => exact .inl h
  | panic m => exact .inl h
  | call c next ih =>
      rcases h.perform hy (hquiet c next r .refl) with h' | h'
      · exact ih _ h' fun c' next' r' hr => hquiet c' next' r' (.head (.call c next r) hr)
      · exact .inr (h'.of_staysSpent (related_runWith Run.staysSpent_perform hroute _ _))
  | callRoute next ih =>
      have hdrop :
          (callRoute next).runWith route r.dropStream = (callRoute next).runWith route r := by
        rw [runWith, runWith, Run.dropStream_dropStream]
      rw [← hdrop]
      exact .inr ((h.emptied_dropStream hy).of_staysSpent
        (related_runWith Run.staysSpent_perform hroute _ _))

/-- A program that opens a response stream while nothing keeps the head from being sent, and makes
only quiet calls from then on, has emptied the response when it ends, however it ends. -/
theorem emptied_run {handler : Option (Handler σ)} {p : Program σ α}
    {next : Except DispatchError Unit → Program σ α} {r r₁ : Run σ} (hsound : r.Sound)
    (hreach : Reaches (runRoute handler r.nesting.depth) (p, r) (.call .openStream next, r₁))
    (hready : r₁.dropStream.context.exchange.Ready)
    (hquiet : ∀ c next' r', Reaches (runRoute handler r.nesting.depth)
      (next (.ok ()), r₁.openStream.2) (.call c next', r') → c.Quiet) :
    (p.run handler r).2.Emptied r₁.openStream.2.context.exchange := by
  have hsound₁ := ((advances_of_reaches (Program.related_runRoute Run.advances_perform handler _)
    hreach).trans r₁.advances_dropStream hsound).2
  have hopen := Run.openStream_of_headersSent_eq_false hready.headersSent
  have hy : r₁.openStream.2.context.exchange.Ready := by
    rw [hopen]
    exact ⟨hready.closed, hready.headersSent, hready.limit⟩
  have hunwritten : r₁.openStream.2.Unwritten r₁.openStream.2.context.exchange := by
    refine ⟨?_, ?_, rfl⟩
    · rw [hopen]
      exact ⟨_, rfl, rfl⟩
    · rw [hopen]
      exact hsound₁.events_eq_nil hready.headersSent
  have hroute := related_runRoute Run.staysSpent_perform handler r.nesting.depth
  have hrun : p.runWith (runRoute handler r.nesting.depth) r =
      (next (.ok ())).runWith (runRoute handler r.nesting.depth) r₁.openStream.2 := by
    refine (runWith_of_reaches hreach).trans ?_
    change (next r₁.openStream.1).runWith _ r₁.openStream.2 = _
    rw [hopen]
  unfold run runAndSettle
  rw [hrun]
  exact Run.emptied_settle (unwritten_runWith hroute hy _ hunwritten hquiet) hy _

end Program

end HttpDispatch
