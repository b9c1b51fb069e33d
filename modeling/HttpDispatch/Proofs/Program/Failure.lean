import HttpDispatch.Proofs.Program.Unwritten
import HttpDispatch.Proofs.Stream.Failure

/-!
# Programs in which a response stream fails

A run is live as long as the exchange is open (`Run.Live`): then a response that is marked as cut
short has had its head sent, and none is marked while a response stream is open on it. Programs keep
a run live, and they mark nothing as cut short once the head has been sent (`Run.Lives`).

So a response stream that fails leaves no mark: when the program has ended, the head has been sent
and the response counts as whole (`Program.unmarked_run`).
-/

namespace HttpDispatch

variable {σ α : Type}

namespace Context

variable {c c' : Context}

def AsMarked (c c' : Context) : Prop := c'.truncated = c.truncated

theorem truncated_bodyBytes (c : Context) : c.bodyBytes.2.truncated = c.truncated := by
  unfold bodyBytes
  split
  · rfl
  · refine Attempt.andThen_preserves (P := c.AsMarked) ?_ ?_
    · rw [Attempt.snd_mapError]
      rfl
    · exact fun _ _ _ h => h

theorem truncated_bodyJson (c : Context) : c.bodyJson.2.truncated = c.truncated :=
  Attempt.andThen_preserves (P := c.AsMarked) c.truncated_bodyBytes fun _ _ _ h => h

theorem truncated_setStatus (c : Context) (s : Status) :
    (c.setStatus s).2.truncated = c.truncated := by
  rw [setStatus, Attempt.snd_mapError]
  rfl

theorem truncated_setField (c : Context) (n : FieldName) (v : FieldValue) :
    (c.setField n v).2.truncated = c.truncated := by
  unfold setField
  split <;> rfl

theorem truncated_sendHeaders (c : Context) : c.sendHeaders.2.truncated = c.truncated := by
  rw [sendHeaders, Attempt.snd_mapError]
  rfl

theorem truncated_openEvents {κ : Type} (c : Context) :
    (c.openEvents : Attempt Context DispatchError (EventStream κ)).2.truncated = c.truncated := by
  unfold openEvents
  split
  · rfl
  · refine Attempt.andThen_preserves (P := c.AsMarked) (c.truncated_setStatus .ok) ?_
    intro _ c₁ _ h₁
    refine Attempt.andThen_preserves (P := c.AsMarked) ((c₁.truncated_setField _ _).trans h₁) ?_
    intro _ c₂ _ h₂
    refine Attempt.andThen_preserves (P := c.AsMarked) ((c₂.truncated_setField _ _).trans h₂) ?_
    intro _ c₃ _ h₃
    refine Attempt.andThen_preserves (P := c.AsMarked) ((c₃.truncated_setField _ _).trans h₃) ?_
    intro _ c₄ _ h₄
    refine Attempt.andThen_preserves (P := c.AsMarked) ((truncated_sendHeaders _).trans h₄) ?_
    intro _ c₅ _ h₅
    split
    · exact h₅
    · split
      · exact h₅
      · refine Attempt.andThen_preserves (P := c.AsMarked) ?_ ?_
        · rw [Attempt.snd_mapError]
          exact h₅
        · intro _ c₆ _ h₆
          refine Attempt.andThen_preserves (P := c.AsMarked) ?_ ?_
          · rw [Attempt.snd_mapError]
            exact h₆
          · exact fun _ _ _ h₇ => h₇

def CutBegun (c : Context) : Prop := c.truncated = true → c.exchange.headersSent = true

theorem CutBegun.of_moves (h : c.CutBegun) (hm : c.Moves c') (ht : c'.truncated = c.truncated) :
    c'.CutBegun :=
  fun hcut => hm.exchange.headersSent_mono (h (ht ▸ hcut))

theorem CutBegun.setField (h : c.CutBegun) (n : FieldName) (v : FieldValue) :
    (c.setField n v).2.CutBegun :=
  h.of_moves (c.meets_setField n v).moves (c.truncated_setField n v)

theorem CutBegun.sendPart (h : c.CutBegun) (source : Source) (total : Nat) (mediaType : FieldValue)
    (range : Option ByteRange) : (c.sendPart source total mediaType range).2.CutBegun := by
  unfold Context.sendPart
  simp only
  generalize (if range.isSome = true then Status.partialContent else Status.ok) = status
  generalize (range.map (·.length)).getD total = length
  split
  · exact h
  · next source _ =>
    refine Attempt.andThen_preserves (P := CutBegun)
      (h.of_moves (c.meets_setStatus status).moves (c.truncated_setStatus status)) ?_
    intro _ c₁ _ h₁
    refine Attempt.andThen_preserves (P := CutBegun) (h₁.setField _ _) ?_
    intro _ c₂ _ h₂
    refine Attempt.andThen_preserves (P := CutBegun) (h₂.setField _ _) ?_
    intro _ c₃ _ h₃
    refine Attempt.andThen_preserves (P := CutBegun) (h₃.setField _ _) ?_
    intro _ c₄ _ h₄
    refine Attempt.andThen_preserves (P := CutBegun) ?_ ?_
    · cases range with
      | none => exact h₄
      | some r => exact h₄.setField _ _
    · intro _ c₅ _ h₅
      have hsend := c₅.stamp.meets_sendHeaders
      refine Attempt.andThen_preserves (P := CutBegun)
        (CutBegun.of_moves (c := c₅.stamp) h₅ hsend.moves (truncated_sendHeaders _)) ?_
      intro _ c₆ hc₆ h₆
      rw [hc₆] at hsend
      have hs₆ := (hsend.post _ rfl).1
      split
      · exact h₆
      · next hbody =>
        rw [Bool.or_eq_true, not_or] at hbody
        have hm := moves_copyPart hs₆ (Bool.eq_false_iff.2 hbody.1) status source length
        exact fun _ => hm.exchange.headersSent_mono hs₆

theorem CutBegun.serveRange (h : c.CutBegun) (source : Source) (total : Nat)
    (contentType : String) : (c.serveRange source total contentType).2.CutBegun := by
  unfold Context.serveRange
  simp only
  split
  · exact h
  · exact h.sendPart _ _ _ _
  · exact h.sendPart _ _ _ _

/-- A range that is refused because the head has been sent is not marked as cut short. -/
theorem truncated_serveRange (h : c.exchange.headersSent = true) (source : Source) (total : Nat)
    (contentType : String) :
    (c.serveRange source total contentType).2.truncated = c.truncated := by
  have hpart :
      ∀ mediaType range, (c.sendPart source total mediaType range).2.truncated = c.truncated := by
    intro mediaType range
    unfold sendPart
    simp only
    split
    · rfl
    · rw [setStatus_of_headersSent h]
      rfl
  unfold serveRange
  simp only
  split
  · rfl
  · exact hpart _ _
  · exact hpart _ _

end Context

namespace Run

variable {r r' r'' : Run σ}

/-- The exchange is open, and what is open on the run fits it. A response that is marked as cut
short has had its head sent, and none is marked while a response stream is open. -/
structure Live (r : Run σ) : Prop extends r.Sound where
  closed : r.context.exchange.closed = false
  begun : r.context.CutBegun
  uncut : r.stream.isSome = true → r.context.truncated = false

/-- A live run stays live. Once the head has been sent, nothing is marked as cut short. -/
def Lives (r r' : Run σ) : Prop :=
  r.Live → r'.Live ∧ (r.context.exchange.headersSent = true →
    r'.context.exchange.headersSent = true ∧ r'.context.truncated = r.context.truncated)

theorem Lives.refl (r : Run σ) : r.Lives r := fun h => ⟨h, fun hs => ⟨hs, rfl⟩⟩

theorem Lives.trans (h : r.Lives r') (h' : r'.Lives r'') : r.Lives r'' := by
  intro hr
  obtain ⟨hr', hsent⟩ := h hr
  obtain ⟨hr'', hsent'⟩ := h' hr'
  refine ⟨hr'', fun hs => ?_⟩
  obtain ⟨hs', ht⟩ := hsent hs
  obtain ⟨hs'', ht'⟩ := hsent' hs'
  exact ⟨hs'', ht'.trans ht⟩

instance : IsPreorder (Run σ) Lives where
  refl := .refl
  trans _ _ _ := .trans

theorem Advances.lives (h : r.Advances r') (ht : r'.context.truncated = r.context.truncated)
    (hstream : r'.stream.isSome = true → r.stream.isSome = true) : r.Lives r' := by
  intro hr
  obtain ⟨hm, hsound⟩ := h hr.toSound
  refine ⟨⟨hsound, hm.exchange.frame.2.2.1.trans hr.closed, hr.begun.of_moves hm ht, ?_⟩, ?_⟩
  · exact fun hs => ht.trans (hr.uncut (hstream hs))
  · exact fun hs => ⟨hm.exchange.headersSent_mono hs, ht⟩

theorem truncated_dropStream (r : Run σ) :
    r.dropStream.context.truncated = r.context.truncated := by
  unfold dropStream
  split <;> rfl

theorem lives_dropStream (r : Run σ) : r.Lives r.dropStream := by
  refine r.advances_dropStream.lives r.truncated_dropStream ?_
  rw [stream_dropStream]
  exact nofun

theorem lives_onContext {ε : Type} {f : Context → Attempt Context ε α}
    (hf : ∀ c : Context, c.Moves (f c).2) (ht : ∀ c, (f c).2.truncated = c.truncated) (r : Run σ) :
    r.Lives (r.onContext f).2 := by
  refine (advances_onContext hf r).lives ((ht _).trans r.truncated_dropStream) ?_
  intro hs
  have hnone : (r.onContext f).2.stream = none := r.stream_dropStream
  rw [hnone] at hs
  cases hs

theorem lives_serveRange (source : Source) (total : Nat) (contentType : String) (r : Run σ) :
    r.Lives (r.onContext (·.serveRange source total contentType)).2 := by
  refine r.lives_dropStream.trans ?_
  intro hr
  have hm := r.dropStream.context.moves_serveRange source total contentType
  have hnone : (r.onContext (·.serveRange source total contentType)).2.stream = none :=
    r.stream_dropStream
  have hadvances := advances_onContext
    (fun c => Context.moves_serveRange c source total contentType) r.dropStream
  rw [onContext_dropStream] at hadvances
  refine ⟨⟨(hadvances hr.toSound).2, hm.exchange.frame.2.2.1.trans hr.closed,
    hr.begun.serveRange source total contentType, ?_⟩, ?_⟩
  · rw [hnone]
    exact nofun
  · exact fun hs => ⟨hm.exchange.headersSent_mono hs, Context.truncated_serveRange hs _ _ _⟩

theorem openStream_dropStream (r : Run σ) : r.dropStream.openStream = r.openStream := by
  unfold openStream
  rw [dropStream_dropStream]

theorem openEvents_dropStream (r : Run σ) : r.dropStream.openEvents = r.openEvents := by
  unfold openEvents
  rw [onContext_dropStream]

theorem same_openEvents (r : Run σ) :
    r.openEvents.2.context.truncated = r.context.truncated ∧ r.openEvents.2.stream = none := by
  have hnone : (r.onContext (Context.openEvents (κ := σ → σ))).2.stream = none :=
    r.stream_dropStream
  have ht :
      (r.onContext (Context.openEvents (κ := σ → σ))).2.context.truncated = r.context.truncated :=
    (Context.truncated_openEvents _).trans r.truncated_dropStream
  unfold openEvents
  generalize r.onContext (Context.openEvents (κ := σ → σ)) = opened at hnone ht ⊢
  obtain ⟨e | stream, r₁⟩ := opened
  · exact ⟨ht, hnone⟩
  · exact ⟨ht, hnone⟩

theorem lives_openEvents (r : Run σ) : r.Lives r.openEvents.2 := by
  obtain ⟨ht, hnone⟩ := r.same_openEvents
  refine r.advances_openEvents.lives ht ?_
  rw [hnone]
  exact nofun

theorem lives_onStream {f : ResponseStream → Exchange → ResponseStream.On α}
    (hf : ∀ {s : ResponseStream} {x : Exchange}, s.Fits x → ResponseStream.Carries x (f s x).2)
    (r : Run σ) : r.Lives (r.onStream f).2 := by
  refine (advances_onStream hf r).lives ?_ ?_
  · unfold onStream
    split <;> rfl
  · unfold onStream
    split
    · exact id
    · next h => exact fun _ => h ▸ rfl

theorem lives_openStream (r : Run σ) : r.Lives r.openStream.2 := by
  refine r.lives_dropStream.trans ?_
  have hadvances := r.dropStream.advances_openStream
  rw [openStream_dropStream] at hadvances
  cases hs : r.dropStream.context.exchange.headersSent with
  | true =>
      have heq : r.openStream.2 = r.dropStream := by
        unfold openStream
        simp only
        rw [if_pos hs]
      rw [heq]
      exact .refl _
  | false =>
      have heq := openStream_of_headersSent_eq_false hs
      intro hr
      refine ⟨⟨(hadvances hr.toSound).2, ?_, ?_, ?_⟩, fun h => ?_⟩
      · rw [heq]
        exact hr.closed
      · rw [heq]
        exact hr.begun
      · intro _
        rw [heq]
        exact Bool.eq_false_iff.2 fun ht => Bool.eq_false_iff.1 hs (hr.begun ht)
      · rw [hs] at h
        cases h

/-!
## Calls and the response stream that is open
-/

structure SameStream (r r' : Run σ) : Prop where
  stream : r'.stream = r.stream
  truncated : r'.context.truncated = r.context.truncated

theorem SameStream.refl (r : Run σ) : r.SameStream r := ⟨rfl, rfl⟩

theorem SameStream.trans (h : r.SameStream r') (h' : r'.SameStream r'') : r.SameStream r'' :=
  ⟨h'.stream.trans h.stream, h'.truncated.trans h.truncated⟩

theorem sameStream_onEvents (r : Run σ) (n : Nat) (dflt : α)
    (f : EventStream (σ → σ) → α × EventStream (σ → σ)) : r.SameStream (r.onEvents n dflt f).2 := by
  unfold onEvents
  split
  · exact .refl r
  · exact ⟨rfl, rfl⟩

theorem sameStream_callElsewhere (n : Nat) (cs : List (NotedCall σ)) (r : Run σ) :
    r.SameStream (r.callElsewhere n cs) := by
  induction cs generalizing r with
  | nil => exact sameStream_onEvents r n _ _
  | cons c cs ih =>
      rw [callElsewhere]
      have hcall : r.SameStream (r.callEvents n c.call).2 := sameStream_onEvents r n _ _
      generalize r.callEvents n c.call = called at hcall ⊢
      obtain ⟨result, r₁⟩ := called
      have hnoted : r.SameStream { r₁ with app := c.note result r₁.app } :=
        ⟨hcall.stream, hcall.truncated⟩
      exact hnoted.trans (ih _)

theorem sameStream_dropEvents (n : Nat) (r : Run σ) : r.SameStream (r.dropEvents n) := by
  unfold dropEvents
  split
  · exact (sameStream_onEvents r n () fun s => ((), s.drop)).trans ⟨rfl, rfl⟩
  · exact .refl r

theorem sameStream_keepAlive (n : Nat) (others : List (NotedCall σ)) (r : Run σ) :
    r.SameStream (r.keepAlive n others) := by
  have hparked : r.SameStream (r.withContext (·.report (.eventStreamParked r.context.id))) :=
    ⟨rfl, rfl⟩
  have hcalls := hparked.trans (sameStream_callElsewhere n others _)
  unfold keepAlive
  simp only
  generalize Run.callElsewhere _ n others = r₁ at hcalls ⊢
  refine SameStream.trans ?_ (sameStream_dropEvents n _)
  exact ⟨hcalls.stream, hcalls.truncated⟩

/-- A call lets the open response stream go before anything else, or it goes on with that stream, or
it has nothing to do with it. -/
inductive OnStream (r : Run σ) (c : Call σ) : Prop
  | letsGo (h : r.dropStream.perform c = r.perform c)
    (fresh : ∀ s, (r.perform c).2.stream = some s → s.failed = false)
  | uses {s : ResponseStream} {t : ResponseStream × Exchange} (hs : r.stream = some s)
    (hfails : s.Fits r.context.exchange → r.context.exchange.closed = false → s.FailsSent t)
    (h : (r.perform c).2 =
      { r with stream := some t.1, context := { r.context with exchange := t.2 } })
  | apart (h : r.SameStream (r.perform c).2)

theorem OnStream.gone {c : Call σ} (h : r.dropStream.perform c = r.perform c)
    (hnone : (r.perform c).2.stream = none) : r.OnStream c := by
  refine .letsGo h ?_
  intro s hs
  rw [hnone] at hs
  cases hs

theorem onStream_onStream {f : ResponseStream → Exchange → ResponseStream.On α}
    (hf : ∀ {s : ResponseStream} {x : Exchange},
      s.Fits x → x.closed = false → s.FailsSent (f s x).2)
    {c : Call σ} {r : Run σ} (hc : (r.perform c).2 = (r.onStream f).2) : r.OnStream c := by
  cases hs : r.stream with
  | none =>
      refine .apart ?_
      have heq : (r.onStream f).2 = r := by
        unfold onStream
        rw [hs]
      rw [hc, heq]
      exact .refl r
  | some s =>
      refine .uses hs (hf (s := s) (x := r.context.exchange)) ?_
      rw [hc, onStream, hs]

theorem onStream_perform (r : Run σ) (c : Call σ) : r.OnStream c := by
  cases c with
  | view => exact .gone (by simp only [perform, dropStream_dropStream]) r.stream_dropStream
  | streamDrop => exact .gone (by simp only [perform, dropStream_dropStream]) r.stream_dropStream
  | setAttributes a =>
    exact .gone (by simp only [perform, dropStream_dropStream]) r.stream_dropStream
  | bodyBytes => exact .gone (onContext_dropStream r Context.bodyBytes) r.stream_dropStream
  | bodyJson => exact .gone (onContext_dropStream r Context.bodyJson) r.stream_dropStream
  | setStatus s => exact .gone (onContext_dropStream r (·.setStatus s)) r.stream_dropStream
  | setField n v => exact .gone (onContext_dropStream r (·.setField n v)) r.stream_dropStream
  | serveRange source total contentType =>
      exact .gone (onContext_dropStream r (·.serveRange source total contentType))
        r.stream_dropStream
  | openStream =>
      refine .letsGo r.openStream_dropStream ?_
      intro s hs
      simp only [perform, openStream] at hs
      split at hs
      · rw [stream_dropStream] at hs
        cases hs
      · cases hs
        rfl
  | openEvents => exact .gone r.openEvents_dropStream r.same_openEvents.2
  | streamWrite b => exact onStream_onStream (fun h hc => ResponseStream.failsSent_write h hc b) rfl
  | streamWriteAll b =>
    exact onStream_onStream (fun h hc => ResponseStream.failsSent_writeAll h hc b) rfl
  | streamFlush => exact onStream_onStream (fun h _ => ResponseStream.failsSent_flush h) rfl
  | streamFinish => exact onStream_onStream (fun h hc => ResponseStream.failsSent_finish h hc) rfl
  | events n c => exact .apart (sameStream_onEvents r n _ _)
  | keepAlive n others => exact .apart (sameStream_keepAlive n others r)
  | dropEvents n => exact .apart (sameStream_dropEvents n r)
  | modify f => exact .apart ⟨rfl, rfl⟩
  | modifyMetrics f => exact .apart ⟨rfl, rfl⟩
  | report e => exact .apart ⟨rfl, rfl⟩
  | streamView => exact .apart (.refl r)
  | eventsClosed n => exact .apart (.refl r)
  | get => exact .apart (.refl r)
  | metrics => exact .apart (.refl r)
  | elapsed => exact .apart (.refl r)

theorem SameStream.lives (h : r.SameStream r') (ha : r.Advances r') : r.Lives r' :=
  ha.lives h.truncated fun hs => h.stream ▸ hs

theorem lives_perform (r : Run σ) (c : Call σ) : r.Lives (r.perform c).2 := by
  have hadvances := r.advances_perform c
  cases c with
  | view => exact lives_dropStream r
  | streamDrop => exact lives_dropStream r
  | setAttributes a =>
      refine r.lives_dropStream.trans (SameStream.lives ⟨rfl, rfl⟩ (advances_withContext ?_ rfl))
      exact Context.moves_onExchange (.single (.inside _ _ _ _ _))
  | bodyBytes => exact lives_onContext Context.moves_bodyBytes Context.truncated_bodyBytes r
  | bodyJson => exact lives_onContext Context.moves_bodyJson Context.truncated_bodyJson r
  | setStatus s =>
      exact lives_onContext (fun c => (c.meets_setStatus s).moves)
        (fun c => c.truncated_setStatus s) r
  | setField n v =>
      exact lives_onContext (fun c => (c.meets_setField n v).moves)
        (fun c => c.truncated_setField n v) r
  | serveRange source total contentType => exact lives_serveRange source total contentType r
  | openStream => exact lives_openStream r
  | openEvents => exact lives_openEvents r
  | streamWrite b => exact lives_onStream (fun h => ResponseStream.carries_write h b) r
  | streamWriteAll b => exact lives_onStream (fun h => ResponseStream.carries_writeAll h b) r
  | streamFlush => exact lives_onStream (fun h => ResponseStream.carries_flush h) r
  | streamFinish => exact lives_onStream (fun h => ResponseStream.carries_finish h) r
  | events n c => exact (sameStream_onEvents r n _ _).lives hadvances
  | keepAlive n others => exact (sameStream_keepAlive n others r).lives hadvances
  | dropEvents n => exact (sameStream_dropEvents n r).lives hadvances
  | modify f => exact SameStream.lives ⟨rfl, rfl⟩ hadvances
  | modifyMetrics f => exact SameStream.lives ⟨rfl, rfl⟩ hadvances
  | report e => exact SameStream.lives ⟨rfl, rfl⟩ hadvances
  | streamView => exact .refl r
  | eventsClosed n => exact .refl r
  | get => exact .refl r
  | metrics => exact .refl r
  | elapsed => exact .refl r

/-- The response stream that was open on `r` had not failed before, and has failed when the run has
come to `r'`: it is still open there, or it failed when it was let go. -/
def StreamFails (r r' : Run σ) : Prop :=
  ∃ s, r.stream = some s ∧ s.failed = false ∧
    match r'.stream with
    | some s' => s'.failed = true
    | none => (s.drop r.context.exchange).1.failed = true

/-- The head has been sent, and the response is not marked as cut short. -/
def Unmarked (r : Run σ) : Prop :=
  r.context.exchange.headersSent = true ∧ r.context.truncated = false

theorem Unmarked.of_lives (h : r.Unmarked) (hl : r.Lives r') (hr : r.Live) : r'.Unmarked := by
  obtain ⟨-, hsent⟩ := hl hr
  obtain ⟨hs, ht⟩ := hsent h.1
  exact ⟨hs, ht.trans h.2⟩

/-- A stream that fails when it is let go leaves no mark. -/
theorem unmarked_dropStream (hr : r.Live) {s : ResponseStream} (hs : r.stream = some s)
    (hok : s.failed = false) (hfailed : (s.drop r.context.exchange).1.failed = true) :
    r.dropStream.Unmarked := by
  refine ⟨?_, r.truncated_dropStream.trans (hr.uncut (hs ▸ rfl))⟩
  have hsent : (s.drop r.context.exchange).2.headersSent = true := by
    obtain h | h := ResponseStream.failsSent_drop (hr.stream s hs) hr.closed hfailed
    · rw [hok] at h
      cases h
    · exact h
  unfold dropStream
  rw [hs]
  exact hsent

/-- A call on which the stream fails leaves no mark. -/
theorem unmarked_perform (hr : r.Live) {c : Call σ} (h : r.StreamFails (r.perform c).2) :
    (r.perform c).2.Unmarked := by
  obtain ⟨s, hs, hok, hfailed⟩ := h
  cases r.onStream_perform c with
  | letsGo hc fresh =>
      -- whatever else the call does, it does it after letting the stream go
      have hdropped : r.dropStream.Unmarked := by
        cases hs' : (r.perform c).2.stream with
        | none =>
            rw [hs'] at hfailed
            exact unmarked_dropStream hr hs hok hfailed
        | some s' =>
            rw [hs'] at hfailed
            have hfresh := fresh s' hs'
            rw [hfailed] at hfresh
            cases hfresh
      rw [← hc]
      exact hdropped.of_lives (lives_perform _ c) (r.lives_dropStream hr).1
  | uses hs' hfails heq =>
      rw [hs] at hs'
      cases hs'
      rw [heq] at hfailed ⊢
      refine ⟨?_, hr.uncut (hs ▸ rfl)⟩
      obtain h | h := hfails (hr.stream s hs) hr.closed hfailed
      · rw [hok] at h
        cases h
      · exact h
  | apart heq =>
      rw [heq.stream, hs] at hfailed
      exact absurd hfailed (Bool.eq_false_iff.1 hok)

theorem stream_settle (r : Run σ) (first : Nat) : (r.settle first).stream = none := by
  have hfold : ∀ (ns : List Nat) (r : Run σ), (ns.foldl dropEvents r).stream = r.stream := by
    intro ns
    induction ns with
    | nil => exact fun r => rfl
    | cons n ns ih => exact fun r => (ih _).trans (sameStream_dropEvents n r).stream
  exact (hfold _ _).trans r.stream_dropStream

end Run

/-!
## Programs

A response stream fails in a program when it fails on one of the calls that the program makes, when
it is let go for the handler of the route, in that handler, or when it is let go in the end.
-/

namespace Program

open Run

/-- Somewhere in the program a response stream fails; `breaks` says whether one does in the handler
of the request's route. -/
def breaksWith (route : Run σ → Option (Ending Response) × Run σ) (breaks : Run σ → Prop) :
    Program σ α → Run σ → Prop
  | done _, _ | fail _, _ | panic _, _ => False
  | call c next, r =>
    r.StreamFails (r.perform c).2 ∨ breaksWith route breaks (next (r.perform c).1) (r.perform c).2
  | callRoute next, r =>
    r.StreamFails r.dropStream ∨ breaks r.dropStream ∨
      match route r.dropStream with
      | (none, r) => breaksWith route breaks (next none) r
      | (some (.ok a), r) => breaksWith route breaks (next (some (.ok a))) r
      | (some (.failed e), r) => breaksWith route breaks (next (some (.error e))) r
      | (some (.panicked _), _) => False

def breaksAndSettles (route : Run σ → Option (Ending Response) × Run σ) (breaks : Run σ → Prop)
    (p : Program σ α) (r : Run σ) : Prop :=
  p.breaksWith route breaks r ∨ (p.runWith route r).2.StreamFails (p.runWith route r).2.dropStream

def routeBreaks (handler : Option (Handler σ)) : Nat → Run σ → Prop
  | 0, _ => False
  | depth + 1, r =>
    match handler with
    | none => False
    | some h => h.breaksAndSettles (runRoute handler depth) (routeBreaks handler depth) r

/-- A response stream fails in a program that is run for a request whose route is served by
`handler`. -/
def Breaks (handler : Option (Handler σ)) (p : Program σ α) (r : Run σ) : Prop :=
  p.breaksAndSettles (runRoute handler r.nesting.depth) (routeBreaks handler r.nesting.depth) r

theorem lives_run (handler : Option (Handler σ)) (p : Program σ α) (r : Run σ) :
    r.Lives (p.run handler r).2 :=
  related_run lives_perform handler p r

section

variable {route : Run σ → Option (Ending Response) × Run σ} {breaks : Run σ → Prop} {r : Run σ}

theorem unmarked_runWith (hroute : ∀ r : Run σ, r.Lives (route r).2)
    (hbreaks : ∀ r : Run σ, r.Live → breaks r → (route r).2.Unmarked) (p : Program σ α)
    (hr : r.Live)
    (h : p.breaksWith route breaks r) : (p.runWith route r).2.Unmarked := by
  have hrest : ∀ (p : Program σ α) (r : Run σ), r.Lives (p.runWith route r).2 :=
    related_runWith lives_perform hroute
  induction p generalizing r with
  | done a => exact h.elim
  | fail e => exact h.elim
  | panic m => exact h.elim
  | call c next ih =>
      have hlive := (r.lives_perform c hr).1
      obtain h | h := h
      · exact (unmarked_perform hr h).of_lives (hrest _ _) hlive
      · exact ih _ hlive h
  | callRoute next ih =>
      have hdropped := (r.lives_dropStream hr).1
      have hlive := (hroute r.dropStream hdropped).1
      rw [breaksWith] at h
      -- one that failed by the time the handler has ended is marked no more by what comes after it
      have hmet : r.StreamFails r.dropStream ∨ breaks r.dropStream →
          (route r.dropStream).2.Unmarked := by
        rintro (⟨s, hs, hok, hfailed⟩ | h)
        · rw [r.stream_dropStream] at hfailed
          exact (unmarked_dropStream hr hs hok hfailed).of_lives (hroute _) hdropped
        · exact hbreaks _ hdropped h
      rw [← or_assoc] at h
      rw [runWith]
      generalize route r.dropStream = called at h hmet hlive ⊢
      obtain ⟨_ | ⟨a | e | m⟩, r₁⟩ := called
      · exact h.elim (fun h => (hmet h).of_lives (hrest _ _) hlive) (ih _ hlive)
      · exact h.elim (fun h => (hmet h).of_lives (hrest _ _) hlive) (ih _ hlive)
      · exact h.elim (fun h => (hmet h).of_lives (hrest _ _) hlive) (ih _ hlive)
      · exact h.elim hmet False.elim

theorem unmarked_runAndSettle (hroute : ∀ r : Run σ, r.Lives (route r).2)
    (hbreaks : ∀ r : Run σ, r.Live → breaks r → (route r).2.Unmarked) (p : Program σ α)
    (hr : r.Live)
    (h : p.breaksAndSettles route breaks r) : (p.runAndSettle route r).2.Unmarked := by
  have hran := (related_runWith lives_perform hroute p r hr).1
  have hsettle : ∀ (r : Run σ) (first : Nat), r.Lives (r.settle first) :=
    related_settle lives_perform
  obtain h | ⟨s, hs, hok, hfailed⟩ := h
  · exact (unmarked_runWith hroute hbreaks p hr h).of_lives (hsettle _ _) hran
  · rw [stream_dropStream] at hfailed
    have hdropped := unmarked_dropStream hran hs hok hfailed
    have hlive := ((p.runWith route r).2.lives_dropStream hran).1
    have h := hdropped.of_lives (hsettle _ r.events.length) hlive
    unfold settle at h
    rw [dropStream_dropStream] at h
    exact h

end

theorem unmarked_runRoute (handler : Option (Handler σ)) (depth : Nat) {r : Run σ} (hr : r.Live)
    (h : routeBreaks handler depth r) : (runRoute handler depth r).2.Unmarked := by
  induction depth generalizing r with
  | zero => exact h.elim
  | succ depth ih =>
      cases handler with
      | none => exact h.elim
      | some hd =>
          exact unmarked_runAndSettle (related_runRoute lives_perform (some hd) depth)
            (fun r hr h => ih hr h) hd hr h

/-- When a program has ended in which a response stream failed, the head has been sent, and the
response is not marked as cut short. -/
theorem unmarked_run {handler : Option (Handler σ)} {p : Program σ α} {r : Run σ} (hr : r.Live)
    (h : p.Breaks handler r) : (p.run handler r).2.Unmarked :=
  unmarked_runAndSettle (related_runRoute lives_perform handler r.nesting.depth)
    (fun _ hr h => unmarked_runRoute handler r.nesting.depth hr h) p hr h

end Program

end HttpDispatch
