import HttpDispatch.Proofs.Program.Moves

/-!
# Runs from which nothing reaches the client

Once the head has been sent and nothing is open on a run, no program can add to the response: a
response stream cannot be opened, nor an event stream, and ranges are refused. Such a run is spent
(`Run.Spent`), and it stays so whatever is asked of it (`Run.StaysSpent`).
-/

namespace HttpDispatch

variable {σ α : Type}

namespace Exchange

variable {x y : Exchange}

structure SameResponse (x y : Exchange) : Prop where
  sent : y.sent = x.sent
  status : y.status = x.status
  out : y.out = x.out

/-- After the head has been sent, a move changes no more than the body. -/
theorem Moves.sameResponse (h : x.Moves y) (hs : x.headersSent = true) (hout : y.out = x.out) :
    x.SameResponse y := by
  obtain ⟨head, hhead⟩ := Option.isSome_iff_exists.1 hs
  obtain ⟨hsent, hstatus⟩ := h.of_sent hhead
  exact ⟨hsent.trans hhead.symm, hstatus, hout⟩

end Exchange

namespace Context

variable {c : Context}

theorem setStatus_of_headersSent (h : c.exchange.headersSent = true) (s : Status) :
    c.setStatus s = (.error (.exchange .headersAlreadySent), c) := by
  have hx : c.exchange.setStatus s = (.error .headersAlreadySent, c.exchange) := by
    rw [Exchange.setStatus, if_pos h]
  change Attempt.mapError _ (Attempt.inside _ (c.exchange.setStatus s)) = _
  rw [hx]
  rfl

theorem setField_of_headersSent (h : c.exchange.headersSent = true) (n : FieldName)
    (v : FieldValue) : c.setField n v = (.error (.exchange .headersAlreadySent), c) := by
  rw [setField, if_pos h]

theorem openEvents_of_headersSent {κ : Type} (h : c.exchange.headersSent = true) :
    (c.openEvents : Attempt Context DispatchError (EventStream κ)) =
      (.error (.exchange .headersAlreadySent), c) := by
  rw [openEvents, if_pos h]

theorem out_bodyBytes (c : Context) : c.bodyBytes.2.exchange.out = c.exchange.out := by
  unfold bodyBytes
  split
  · rfl
  · refine Attempt.andThen_preserves
      (P := fun c' : Context => c'.exchange.out = c.exchange.out) ?_ ?_
    · rw [Attempt.snd_mapError]
      rfl
    · exact fun _ _ _ h => h

theorem out_bodyJson (c : Context) : c.bodyJson.2.exchange.out = c.exchange.out :=
  Attempt.andThen_preserves (P := fun c' : Context => c'.exchange.out = c.exchange.out)
    c.out_bodyBytes fun _ _ _ h => h

/-- A range is refused once the head has been sent, even if the source can be read. -/
theorem out_sendPart (h : c.exchange.headersSent = true) (source : Source) (total : Nat)
    (mediaType : FieldValue) (range : Option ByteRange) :
    (c.sendPart source total mediaType range).2.exchange.out = c.exchange.out := by
  unfold sendPart
  simp only
  split
  · rfl
  · rw [setStatus_of_headersSent h]
    rfl

theorem out_serveRange (h : c.exchange.headersSent = true) (source : Source) (total : Nat)
    (contentType : String) :
    (c.serveRange source total contentType).2.exchange.out = c.exchange.out := by
  unfold serveRange
  simp only
  split
  · rfl
  · exact out_sendPart h _ _ _ _
  · exact out_sendPart h _ _ _ _

end Context

namespace Run

variable {r r' r'' : Run σ}

/-- The head has been sent, and nothing is open. -/
structure Spent (r : Run σ) : Prop where
  stream : r.stream = none
  events : r.events = []
  headersSent : r.context.exchange.headersSent = true

def StaysSpent (r r' : Run σ) : Prop :=
  r.Spent → r'.Spent ∧ r.context.exchange.SameResponse r'.context.exchange

theorem StaysSpent.refl (r : Run σ) : r.StaysSpent r := fun h => ⟨h, rfl, rfl, rfl⟩

theorem StaysSpent.trans (h : r.StaysSpent r') (h' : r'.StaysSpent r'') : r.StaysSpent r'' := by
  intro hr
  obtain ⟨hr', hsame⟩ := h hr
  obtain ⟨hr'', hsame'⟩ := h' hr'
  exact ⟨hr'', hsame'.sent.trans hsame.sent, hsame'.status.trans hsame.status,
    hsame'.out.trans hsame.out⟩

instance : IsPreorder (Run σ) StaysSpent where
  refl := .refl
  trans _ _ _ := .trans

theorem Spent.sound (h : r.Spent) : r.Sound := by
  refine ⟨?_, ?_⟩
  · intro s hs
    rw [h.stream] at hs
    cases hs
  · intro e he
    rw [h.events] at he
    cases he

theorem dropStream_of_eq_none (h : r.stream = none) : r.dropStream = r := by
  unfold dropStream
  rw [h]

theorem onEvents_of_eq_nil (h : r.events = []) (n : Nat) (dflt : α)
    (f : EventStream (σ → σ) → α × EventStream (σ → σ)) : r.onEvents n dflt f = (dflt, r) := by
  unfold onEvents
  rw [h]
  rfl

theorem dropEvents_of_eq_nil (h : r.events = []) (n : Nat) : r.dropEvents n = r := by
  unfold dropEvents
  rw [h]
  rfl

theorem callElsewhere_of_eq_nil (h : r.events = []) (n : Nat) (cs : List (NotedCall σ)) :
    ∃ app, r.callElsewhere n cs = { r with app } := by
  induction cs generalizing r with
  | nil =>
      refine ⟨r.app, ?_⟩
      rw [callElsewhere, callEvents, onEvents_of_eq_nil h]
  | cons c cs ih =>
      rw [callElsewhere, callEvents, onEvents_of_eq_nil h]
      obtain ⟨app, happ⟩ := ih (r := { r with app := c.note (.error .closed) r.app }) h
      exact ⟨app, happ⟩

theorem keepAlive_of_eq_nil (h : r.events = []) (n : Nat) (others : List (NotedCall σ)) :
    ∃ app elsewhere, r.keepAlive n others =
      { r.withContext (·.report (.eventStreamParked r.context.id)) with app, elsewhere } := by
  unfold keepAlive
  simp only
  generalize hr : r.withContext (·.report (.eventStreamParked r.context.id)) = r₁
  have h₁ : r₁.events = [] := hr ▸ h
  obtain ⟨app, happ⟩ := callElsewhere_of_eq_nil h₁ n others
  rw [happ, dropEvents_of_eq_nil]
  · exact ⟨app, _, rfl⟩
  · exact h₁

theorem staysSpent_onContext {ε : Type} {f : Context → Attempt Context ε α}
    (hf : ∀ c : Context, c.Moves (f c).2)
    (hout : ∀ c : Context, c.exchange.headersSent = true → (f c).2.exchange.out = c.exchange.out)
    (r : Run σ) : r.StaysSpent (r.onContext f).2 := by
  intro h
  have hm := (hf r.context).exchange
  unfold onContext
  rw [dropStream_of_eq_none h.stream]
  exact ⟨⟨h.stream, h.events, hm.headersSent_mono h.headersSent⟩,
    hm.sameResponse h.headersSent (hout _ h.headersSent)⟩

theorem staysSpent_onStream {f : ResponseStream → Exchange → ResponseStream.On α} (r : Run σ) :
    r.StaysSpent (r.onStream f).2 := by
  intro h
  unfold onStream
  rw [h.stream]
  exact StaysSpent.refl r h

theorem staysSpent_of_same (hstream : r'.stream = r.stream) (hevents : r'.events = r.events)
    (hx : r.context.exchange.SameResponse r'.context.exchange) : r.StaysSpent r' := by
  intro h
  refine ⟨⟨hstream.trans h.stream, hevents.trans h.events, ?_⟩, hx⟩
  rw [Exchange.headersSent, hx.sent]
  exact h.headersSent

theorem staysSpent_dropStream (r : Run σ) : r.StaysSpent r.dropStream := by
  intro h
  rw [dropStream_of_eq_none h.stream]
  exact StaysSpent.refl r h

theorem staysSpent_openStream (r : Run σ) : r.StaysSpent r.openStream.2 := by
  intro h
  unfold openStream
  rw [dropStream_of_eq_none h.stream]
  simp only
  rw [if_pos h.headersSent]
  exact StaysSpent.refl r h

theorem staysSpent_openEvents (r : Run σ) : r.StaysSpent r.openEvents.2 := by
  intro h
  unfold openEvents onContext
  rw [dropStream_of_eq_none h.stream]
  simp only
  rw [Context.openEvents_of_headersSent h.headersSent]
  exact StaysSpent.refl r h

theorem staysSpent_perform (r : Run σ) (c : Call σ) : r.StaysSpent (r.perform c).2 := by
  cases c with
  | view => exact staysSpent_dropStream r
  | bodyBytes =>
      exact staysSpent_onContext Context.moves_bodyBytes (fun c _ => c.out_bodyBytes) r
  | bodyJson => exact staysSpent_onContext Context.moves_bodyJson (fun c _ => c.out_bodyJson) r
  | setAttributes a =>
      exact (staysSpent_dropStream r).trans (staysSpent_of_same rfl rfl ⟨rfl, rfl, rfl⟩)
  | setStatus s =>
      refine staysSpent_onContext (fun c => (c.meets_setStatus s).moves) ?_ r
      intro c h
      rw [Context.setStatus_of_headersSent h]
  | setField n v =>
      refine staysSpent_onContext (fun c => (c.meets_setField n v).moves) ?_ r
      intro c h
      rw [Context.setField_of_headersSent h]
  | openStream => exact staysSpent_openStream r
  | streamWrite b => exact staysSpent_onStream r
  | streamWriteAll b => exact staysSpent_onStream r
  | streamFlush => exact staysSpent_onStream r
  | streamFinish => exact staysSpent_onStream r
  | streamDrop => exact staysSpent_dropStream r
  | serveRange source total contentType =>
      exact staysSpent_onContext (fun c => c.moves_serveRange source total contentType)
        (fun _ h => Context.out_serveRange h source total contentType) r
  | openEvents => exact staysSpent_openEvents r
  | events n c =>
      intro h
      simp only [perform, callEvents]
      rw [onEvents_of_eq_nil h.events]
      exact StaysSpent.refl r h
  | keepAlive n others =>
      intro h
      obtain ⟨app, elsewhere, heq⟩ := keepAlive_of_eq_nil h.events n others
      simp only [perform]
      rw [heq]
      exact staysSpent_of_same rfl rfl ⟨rfl, rfl, rfl⟩ h
  | dropEvents n =>
      intro h
      simp only [perform]
      rw [dropEvents_of_eq_nil h.events]
      exact StaysSpent.refl r h
  | modify f => exact staysSpent_of_same rfl rfl ⟨rfl, rfl, rfl⟩
  | modifyMetrics f => exact staysSpent_of_same rfl rfl ⟨rfl, rfl, rfl⟩
  | report e => exact staysSpent_of_same rfl rfl ⟨rfl, rfl, rfl⟩
  | streamView => exact .refl r
  | eventsClosed n => exact .refl r
  | get => exact .refl r
  | metrics => exact .refl r
  | elapsed => exact .refl r

end Run

/-- No program adds to a response once it is spent. -/
theorem Program.staysSpent_run (handler : Option (Handler σ)) (p : Program σ α) (r : Run σ) :
    r.StaysSpent (p.run handler r).2 :=
  related_run Run.staysSpent_perform handler p r

end HttpDispatch
