import HttpDispatch.Proofs.Program.Labelled
import HttpDispatch.Proofs.Stream.Filled

/-!
# Programs whose response streams fill what has no body

The head of a range or of an event stream has a status of its own, which allows for a body. Any
other head that is sent while programs run is that of a response stream. So on a connection that
takes everything a run keeps to this: if a head has been sent that must stand alone, the response is
filled, or a response stream is open that is about to fill it (`Run.Filling`). When a program has
ended, no stream is open any more, and the response is filled.
-/

namespace HttpDispatch

open Exchange

variable {σ α : Type}

theorem Exchange.status_sendHeaders (x : Exchange) : x.sendHeaders.2.status = x.status := by
  cases hc : x.closed with
  | true => rw [sendHeaders_of_closed hc]
  | false =>
      cases hs : x.headersSent with
      | true => rw [sendHeaders_of_headersSent hc hs]
      | false =>
          obtain ⟨out, n, heq, -⟩ := sendHeaders_cases hc hs
          rw [heq]

theorem Exchange.Orderly.filled {y : Exchange} {n : Nat} (h : y.Orderly)
    (hb : y.headersSent = true → ¬ y.status.IsBodiless) : y.Filled n := by
  intro head hhead hbodiless
  have hsent : y.headersSent = true := by rw [headersSent, hhead]; rfl
  exact absurd (h.status_eq head hhead ▸ hbodiless) (hb hsent)

/-- An exchange that is open for a whole response, and takes everything. -/
structure Exchange.Yields (x : Exchange) : Prop where
  orderly : x.Orderly
  flows : x.Flows x.out.written.length

namespace Context

variable {c c' : Context} {status : Status}

/-- The status that is pending, or has been sent. -/
def Says (status : Status) (c : Context) : Prop := c.exchange.status = status

theorem Says.setField (h : c.Says status) (n : FieldName) (v : FieldValue) :
    (c.setField n v).2.Says status := by
  unfold Context.setField
  split <;> exact h

theorem Says.sendHeaders (h : c.Says status) : c.sendHeaders.2.Says status := by
  rw [Context.sendHeaders, Attempt.snd_mapError]
  exact c.exchange.status_sendHeaders.trans h

theorem Says.copyPart (h : c.Says status) (part : Status) (source : Source) (length : Nat) :
    (c.copyPart part source length).2.Says status := by
  unfold Context.copyPart
  dsimp only
  generalize Copy.copyRange _ _ _ = r
  obtain ⟨e | result, copy⟩ := r
  · exact h
  · dsimp only
    split <;> exact h

theorem not_isBodiless_partStatus (range : Option ByteRange) : ¬ (partStatus range).IsBodiless := by
  cases range with
  | none => exact (by decide : ¬ Status.ok.IsBodiless)
  | some r => exact (by decide : ¬ Status.partialContent.IsBodiless)

theorem not_isBodiless_sendPart (hs : c.exchange.headersSent = false) (source : Source)
    (total : Nat) (mediaType : FieldValue) (range : Option ByteRange)
    (hsent : (c.sendPart source total mediaType range).2.exchange.headersSent = true) :
    ¬ (c.sendPart source total mediaType range).2.exchange.status.IsBodiless := by
  cases hseek : source.seekFailure with
  | some e =>
      unfold sendPart Source.seek at hsent
      rw [hseek] at hsent
      exact absurd hsent (Bool.eq_false_iff.1 hs)
  | none =>
      have hpart : (c.sendPart source total mediaType range).2.Says (partStatus range) := by
        rw [sendPart_eq hs hseek]
        refine Attempt.andThen_preserves (P := Says (partStatus range)) (Says.sendHeaders rfl) ?_
        intro _ c₁ _ h₁
        split
        · exact h₁
        · exact h₁.copyPart _ _ _
      rw [hpart]
      exact not_isBodiless_partStatus range

theorem not_isBodiless_serveRange (hs : c.exchange.headersSent = false) (source : Source)
    (total : Nat) (contentType : String)
    (hsent : (c.serveRange source total contentType).2.exchange.headersSent = true) :
    ¬ (c.serveRange source total contentType).2.exchange.status.IsBodiless := by
  rw [serveRange_eq] at hsent ⊢
  split at hsent
  · exact absurd hsent (Bool.eq_false_iff.1 hs)
  · exact not_isBodiless_sendPart hs _ _ _ _ hsent
  · exact not_isBodiless_sendPart hs _ _ _ _ hsent

theorem says_openEvents {κ : Type} (hs : c.exchange.headersSent = false) :
    (c.openEvents : Attempt Context DispatchError (EventStream κ)).2.Says .ok := by
  unfold openEvents
  rw [if_neg (Bool.eq_false_iff.1 hs), setStatus_of_pending hs, Attempt.andThen_ok]
  refine Attempt.andThen_preserves (P := Says .ok) (Says.setField rfl _ _) ?_
  intro _ c₂ _ h₂
  refine Attempt.andThen_preserves (P := Says .ok) (h₂.setField _ _) ?_
  intro _ c₃ _ h₃
  refine Attempt.andThen_preserves (P := Says .ok) (h₃.setField _ _) ?_
  intro _ c₄ _ h₄
  have hstamped : (c₄.stamp.onExchange (·.withPending (·.erase .contentLength))).Says .ok := h₄
  refine Attempt.andThen_preserves (P := Says .ok) hstamped.sendHeaders ?_
  intro _ c₅ _ h₅
  split
  · exact h₅
  · split
    · exact h₅
    · refine Attempt.andThen_preserves (P := Says .ok) ?_ ?_
      · rw [Attempt.snd_mapError]
        exact h₅
      · intro _ c₆ _ h₆
        refine Attempt.andThen_preserves (P := Says .ok) ?_ fun _ _ _ h₇ => h₇
        rw [Attempt.snd_mapError]
        unfold attempt Exchange.detach
        split <;> exact h₆

end Context

namespace Run

variable {x : Exchange} {r r' : Run σ}

/-- The exchange has gone on from `x`, and if the head of a response without a body has been sent,
the response is filled, or the response stream that is open is about to fill it. -/
structure Filling (x : Exchange) (r : Run σ) : Prop where
  sound : r.Sound
  moves : x.Moves r.context.exchange
  productive : r.context.coder.IsProductive
  streamProductive : ∀ s, r.stream = some s → s.coder.IsProductive
  filled :
    ∀ s, r.stream = some s → ResponseStream.Fills x.out.written.length (s, r.context.exchange)
  alone : r.stream = none → r.context.exchange.Filled x.out.written.length

theorem Filling.flows (h : r.Filling x) (hx : x.Yields) :
    r.context.exchange.Flows x.out.written.length :=
  hx.flows.of_moves h.moves

theorem Filling.dropStream (h : r.Filling x) (hx : x.Yields) : r.dropStream.Filling x := by
  obtain ⟨hmoves, hsound⟩ := r.advances_dropStream h.sound
  refine ⟨hsound, h.moves.trans hmoves.exchange, hmoves.coder ▸ h.productive, ?_, ?_, fun _ => ?_⟩
  · rw [r.stream_dropStream]
    exact nofun
  · rw [r.stream_dropStream]
    exact nofun
  · unfold Run.dropStream
    split
    · next hs => exact h.alone hs
    · next s hs =>
      exact ResponseStream.filled_drop (h.streamProductive s hs)
        (h.flows hx) (h.sound.stream s hs) (h.filled s hs)

/-- What does not send a head, and leaves the open stream alone. -/
theorem Filling.of_waits (h : r.Filling x) (ha : r.Advances r') (hw : r.Waits r') :
    r'.Filling x := by
  obtain ⟨hmoves, hsound⟩ := ha h.sound
  have hkept : r.context.exchange.Filled x.out.written.length →
      r'.context.exchange.Filled x.out.written.length := by
    intro hfilled
    cases hs : r.context.exchange.headersSent with
    | true => exact hfilled.of_moves hs hmoves.exchange
    | false =>
        refine filled_of_unsent ?_
        rw [headersSent, hw.context.sent]
        exact hs
  refine ⟨hsound, h.moves.trans hmoves.exchange, hmoves.coder ▸ h.productive, ?_, ?_, ?_⟩
  · rw [hw.stream]
    exact h.streamProductive
  · rw [hw.stream]
    intro s hs
    exact (h.filled s hs).imp hkept fun hcoded => ⟨hcoded.1.of_moves hmoves.exchange, hcoded.2⟩
  · rw [hw.stream]
    exact fun hs => hkept (h.alone hs)

theorem Filling.onContext {ε : Type} {f : Context → Attempt Context ε α} (h : r.Filling x)
    (hx : x.Yields) (hf : ∀ c : Context, c.Moves (f c).2)
    (hstatus : ∀ c : Context, c.exchange.headersSent = false → (f c).2.exchange.headersSent = true →
      ¬ (f c).2.exchange.status.IsBodiless) : (r.onContext f).2.Filling x := by
  have hdropped := h.dropStream hx
  have hnone : (r.onContext f).2.stream = none := r.stream_dropStream
  obtain ⟨hmoves, hsound⟩ := advances_onContext hf r h.sound
  refine ⟨hsound, h.moves.trans hmoves.exchange, hmoves.coder ▸ h.productive, ?_, ?_, fun _ => ?_⟩
  · rw [hnone]
    exact nofun
  · rw [hnone]
    exact nofun
  · cases hs : r.dropStream.context.exchange.headersSent with
    | true =>
      exact (hdropped.alone r.stream_dropStream).of_moves hs (hf r.dropStream.context).exchange
    | false =>
      exact (hx.orderly.of_moves (h.moves.trans hmoves.exchange)).filled
        (hstatus r.dropStream.context hs)

theorem Filling.onContext_of_sent {ε : Type} {f : Context → Attempt Context ε α} (h : r.Filling x)
    (hx : x.Yields) (hf : ∀ c : Context, c.Moves (f c).2)
    (hsent : ∀ c : Context, (f c).2.exchange.sent = c.exchange.sent) :
    (r.onContext f).2.Filling x := by
  refine h.onContext hx hf fun c hs hs' => ?_
  rw [headersSent, hsent] at hs'
  exact absurd hs' (Bool.eq_false_iff.1 hs)

theorem Filling.onStream {f : ResponseStream → Exchange → ResponseStream.On α} (h : r.Filling x)
    (hx : x.Yields)
    (hf : ∀ {s : ResponseStream} {y : Exchange}, s.Fits y → ResponseStream.Carries y (f s y).2)
    (hcoder : ∀ s y, (f s y).2.1.coder = s.coder)
    (hfills : ∀ {s : ResponseStream} {y : Exchange} {n : Nat}, s.coder.IsProductive →
      y.Flows n → s.Fits y → ResponseStream.Fills n (s, y) → ResponseStream.Fills n (f s y).2) :
    (r.onStream f).2.Filling x := by
  obtain ⟨hmoves, hsound⟩ := advances_onStream hf r h.sound
  revert hmoves hsound
  unfold Run.onStream
  split
  · exact fun _ _ => h
  · next s hs =>
    intro hmoves hsound
    refine ⟨hsound, h.moves.trans hmoves.exchange, h.productive, ?_, ?_, nofun⟩
    · rintro _ ⟨⟩
      exact (hcoder s _).symm ▸ h.streamProductive s hs
    · rintro _ ⟨⟩
      exact hfills (h.streamProductive s hs) (h.flows hx) (h.sound.stream s hs) (h.filled s hs)

theorem Filling.openStream (h : r.Filling x) (hx : x.Yields) : r.openStream.2.Filling x := by
  have hdropped := h.dropStream hx
  obtain ⟨hmoves, hsound⟩ := r.advances_openStream h.sound
  revert hmoves hsound
  unfold Run.openStream
  dsimp only
  split
  · exact fun _ _ => hdropped
  · next hs =>
    intro hmoves hsound
    have hunsent : r.dropStream.context.stamp.exchange.headersSent = false := Bool.eq_false_iff.2 hs
    refine ⟨hsound, h.moves.trans hmoves.exchange, hdropped.productive, ?_, ?_, nofun⟩
    · rintro _ ⟨⟩
      exact hdropped.productive
    · rintro _ ⟨⟩
      exact .inl (filled_of_unsent hunsent)

theorem Filling.openEvents (h : r.Filling x) (hx : x.Yields) : r.openEvents.2.Filling x := by
  have hopened : (r.onContext (Context.openEvents (κ := σ → σ))).2.Filling x := by
    refine h.onContext hx (fun c => (Context.meets_openEvents c).moves) fun c hs _ => ?_
    rw [Context.says_openEvents hs]
    decide
  have hsound := (r.advances_openEvents h.sound).2
  revert hsound
  unfold Run.openEvents
  generalize r.onContext (Context.openEvents (κ := σ → σ)) = opened at hopened ⊢
  obtain ⟨e | stream, r₁⟩ := opened
  · exact fun _ => hopened
  · exact fun hsound =>
      ⟨hsound, hopened.moves, hopened.productive, hopened.streamProductive,
        hopened.filled, hopened.alone⟩

theorem Filling.perform (h : r.Filling x) (hx : x.Yields) (c : Call σ) :
    (r.perform c).2.Filling x := by
  have hadvances := r.advances_perform c
  cases c with
  | view => exact h.dropStream hx
  | streamDrop => exact h.dropStream hx
  | setAttributes a =>
      have hadvances : r.dropStream.Advances (r.perform (.setAttributes a)).2 :=
        advances_withContext (Context.moves_onExchange (.single (.inside _ _ _ _ _))) rfl
      exact (h.dropStream hx).of_waits hadvances ⟨⟨rfl, rfl, rfl⟩, rfl⟩
  | bodyBytes =>
    exact h.onContext_of_sent hx Context.moves_bodyBytes fun c => c.waits_bodyBytes.sent
  | bodyJson => exact h.onContext_of_sent hx Context.moves_bodyJson fun c => c.waits_bodyJson.sent
  | setStatus s =>
      exact h.onContext_of_sent hx (fun c => (c.meets_setStatus s).moves) fun c =>
        (c.waits_setStatus s).sent
  | setField n v =>
      refine h.onContext_of_sent hx (fun c => (c.meets_setField n v).moves) fun c => ?_
      unfold Context.setField
      split <;> rfl
  | serveRange source total contentType =>
      exact h.onContext hx (fun c => c.moves_serveRange source total contentType)
        fun c hs => Context.not_isBodiless_serveRange hs source total contentType
  | openStream => exact h.openStream hx
  | openEvents => exact h.openEvents hx
  | streamWrite b =>
      exact h.onStream hx (fun hf => ResponseStream.carries_write hf b)
        (fun s y => s.coder_write y b) fun _ hy hf hs => ResponseStream.fills_write hy hf hs b
  | streamWriteAll b =>
      exact h.onStream hx (fun hf => ResponseStream.carries_writeAll hf b)
        (fun s y => s.coder_writeAll y b) fun _ hy hf hs => ResponseStream.fills_writeAll hy hf hs b
  | streamFlush =>
      exact h.onStream hx (fun hf => ResponseStream.carries_flush hf) (fun s y => s.coder_flush y)
        fun hp hy hf hs => ResponseStream.fills_flush hp hy hf hs
  | streamFinish =>
      exact h.onStream hx (fun hf => ResponseStream.carries_finish hf) (fun s y => s.coder_finish y)
        fun hp hy hf hs => .inl (ResponseStream.filled_finish hp hy hf hs)
  | events n c => exact h.of_waits hadvances (r.waits_onEvents n _ _)
  | keepAlive n others => exact h.of_waits hadvances (r.waits_keepAlive n others)
  | dropEvents n => exact h.of_waits hadvances (r.waits_dropEvents n)
  | modify f => exact h.of_waits hadvances ⟨⟨rfl, rfl, rfl⟩, rfl⟩
  | modifyMetrics f => exact h.of_waits hadvances ⟨⟨rfl, rfl, rfl⟩, rfl⟩
  | report e => exact h.of_waits hadvances ⟨⟨rfl, rfl, rfl⟩, rfl⟩
  | streamView => exact h
  | eventsClosed n => exact h
  | get => exact h
  | metrics => exact h
  | elapsed => exact h

end Run

theorem Call.keeps_filling {x : Exchange} (hx : x.Yields) :
    Call.Keeps (fun _ => True) (Run.Filling (σ := σ) x) where
  perform _ c _ hr := hr.perform hx c
  streamDrop := trivial
  dropEvents _ := trivial

/-- Every program keeps to it. -/
theorem Program.filling_run {x : Exchange} (hx : x.Yields) (handler : Option (Handler σ))
    (p : Program σ α) {r : Run σ} (hr : r.Filling x) : (p.run handler r).2.Filling x :=
  holds_run (Call.keeps_filling hx) handler p (fun _ _ => trivial) hr

end HttpDispatch
