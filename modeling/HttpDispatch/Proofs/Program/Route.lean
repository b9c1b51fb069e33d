import HttpDispatch.Proofs.Program.Calls

/-!
# The route of a request stays

The dispatcher notes the route of a request when it has found it, and nothing that a program asks
for takes it back or puts another one in its place (`Program.route_run`).
-/

namespace HttpDispatch

namespace Context

variable (c : Context)

theorem route_andThen {ε α β : Type} {r : Attempt Context ε α}
    {f : α → Context → Attempt Context ε β} (hr : r.2.route = c.route)
    (hf : ∀ a c', c'.route = c.route → (f a c').2.route = c.route) :
    (r.andThen f).2.route = c.route :=
  Attempt.andThen_preserves (P := fun c' : Context => c'.route = c.route) hr fun a c' _ h =>
    hf a c' h

theorem route_setStatus (s : Status) : (c.setStatus s).2.route = c.route := by
  rw [setStatus, Attempt.snd_mapError]
  rfl

theorem route_setField (n : FieldName) (v : FieldValue) : (c.setField n v).2.route = c.route := by
  unfold setField
  split <;> rfl

theorem route_sendHeaders : c.sendHeaders.2.route = c.route := by
  rw [sendHeaders, Attempt.snd_mapError]
  rfl

theorem route_bodyBytes : c.bodyBytes.2.route = c.route := by
  unfold bodyBytes
  split
  · rfl
  · refine c.route_andThen ?_ fun _ _ h => h
    rw [Attempt.snd_mapError]
    rfl

theorem route_bodyJson : c.bodyJson.2.route = c.route :=
  c.route_andThen c.route_bodyBytes fun _ _ h => h

theorem route_copyPart (status : Status) (source : Source) (length : Nat) :
    (c.copyPart status source length).2.route = c.route := by
  unfold copyPart
  dsimp only
  generalize Copy.copyRange _ length c.settings.range.chunkSize = copied
  obtain ⟨e | r, copy⟩ := copied
  · rfl
  · dsimp only
    split <;> rfl

theorem route_sendPart (source : Source) (total : Nat) (mediaType : FieldValue)
    (range : Option ByteRange) : (c.sendPart source total mediaType range).2.route = c.route := by
  unfold sendPart
  dsimp only
  split
  · rfl
  · next source _ =>
    refine c.route_andThen (c.route_setStatus _) fun _ c₁ h₁ => ?_
    refine c.route_andThen ((c₁.route_setField _ _).trans h₁) fun _ c₂ h₂ => ?_
    refine c.route_andThen ((c₂.route_setField _ _).trans h₂) fun _ c₃ h₃ => ?_
    refine c.route_andThen ((c₃.route_setField _ _).trans h₃) fun _ c₄ h₄ => ?_
    refine c.route_andThen ?_ fun _ c₅ h₅ => ?_
    · cases range with
      | none => exact h₄
      | some r => exact (c₄.route_setField _ _).trans h₄
    · refine c.route_andThen (c₅.stamp.route_sendHeaders.trans h₅) fun _ c₆ h₆ => ?_
      split
      · exact h₆
      · exact (c₆.route_copyPart _ _ _).trans h₆

theorem route_serveRange (source : Source) (total : Nat) (contentType : String) :
    (c.serveRange source total contentType).2.route = c.route := by
  unfold serveRange
  dsimp only
  split
  · rfl
  · exact c.route_sendPart _ _ _ _
  · exact c.route_sendPart _ _ _ _

theorem route_openEvents {κ : Type} :
    (c.openEvents : Attempt Context DispatchError (EventStream κ)).2.route = c.route := by
  unfold openEvents
  split
  · rfl
  · refine c.route_andThen (c.route_setStatus _) fun _ c₁ h₁ => ?_
    refine c.route_andThen ((c₁.route_setField _ _).trans h₁) fun _ c₂ h₂ => ?_
    refine c.route_andThen ((c₂.route_setField _ _).trans h₂) fun _ c₃ h₃ => ?_
    refine c.route_andThen ((c₃.route_setField _ _).trans h₃) fun _ c₄ h₄ => ?_
    refine c.route_andThen ((Context.route_sendHeaders _).trans h₄) fun _ c₅ h₅ => ?_
    split
    · exact h₅
    · split
      · exact h₅
      · refine c.route_andThen ?_ fun _ c₆ h₆ => ?_
        · rw [Attempt.snd_mapError]
          exact h₅
        · refine c.route_andThen ?_ fun _ c₇ h₇ => h₇
          rw [Attempt.snd_mapError]
          exact h₆

end Context

variable {σ α : Type}

namespace Run

def route (r : Run σ) : Option MatchedRoute := r.context.route

theorem route_dropStream (r : Run σ) : r.dropStream.route = r.route := by
  unfold dropStream
  split <;> rfl

theorem route_onContext {ε : Type} {f : Context → Attempt Context ε α}
    (hf : ∀ c, (f c).2.route = c.route) (r : Run σ) : (r.onContext f).2.route = r.route :=
  (hf r.dropStream.context).trans r.route_dropStream

theorem route_onStream (r : Run σ) (f : ResponseStream → Exchange → ResponseStream.On α) :
    (r.onStream f).2.route = r.route := by
  unfold onStream
  split <;> rfl

theorem route_openStream (r : Run σ) : r.openStream.2.route = r.route := by
  unfold openStream
  dsimp only
  split
  · exact r.route_dropStream
  · exact r.route_dropStream

theorem route_onEvents (r : Run σ) (n : Nat) (dflt : α)
    (f : EventStream (σ → σ) → α × EventStream (σ → σ)) :
    (r.onEvents n dflt f).2.route = r.route := by
  unfold onEvents
  split <;> rfl

theorem route_callElsewhere (n : Nat) (others : List (NotedCall σ)) (r : Run σ) :
    (r.callElsewhere n others).route = r.route := by
  induction others generalizing r with
  | nil => exact r.route_onEvents n _ _
  | cons c cs ih =>
      have hcall : (r.callEvents n c.call).2.route = r.route := r.route_onEvents n _ _
      exact (ih _).trans hcall

theorem route_dropEvents (r : Run σ) (n : Nat) : (r.dropEvents n).route = r.route := by
  unfold dropEvents
  split
  · exact r.route_onEvents n _ _
  · rfl

theorem route_keepAlive (r : Run σ) (n : Nat) (others : List (NotedCall σ)) :
    (r.keepAlive n others).route = r.route := by
  unfold keepAlive
  exact (route_dropEvents _ n).trans (route_callElsewhere n others _)

theorem route_openEvents (r : Run σ) : r.openEvents.2.route = r.route := by
  have hopened := route_onContext (fun c => c.route_openEvents (κ := σ → σ)) r
  unfold openEvents
  generalize r.onContext (Context.openEvents (κ := σ → σ)) = opened at hopened ⊢
  obtain ⟨e | stream, r₁⟩ := opened
  · exact hopened
  · exact hopened

theorem route_perform (r : Run σ) (c : Call σ) : (r.perform c).2.route = r.route := by
  cases c with
  | view => exact r.route_dropStream
  | streamDrop => exact r.route_dropStream
  | setAttributes a => exact r.route_dropStream
  | bodyBytes => exact route_onContext Context.route_bodyBytes r
  | bodyJson => exact route_onContext Context.route_bodyJson r
  | setStatus s => exact route_onContext (fun c => c.route_setStatus s) r
  | setField n v => exact route_onContext (fun c => c.route_setField n v) r
  | serveRange source total contentType =>
      exact route_onContext (fun c => c.route_serveRange source total contentType) r
  | openStream => exact r.route_openStream
  | openEvents => exact r.route_openEvents
  | streamWrite b => exact r.route_onStream _
  | streamWriteAll b => exact r.route_onStream _
  | streamFlush => exact r.route_onStream _
  | streamFinish => exact r.route_onStream _
  | events n c => exact r.route_onEvents n _ _
  | keepAlive n others => exact r.route_keepAlive n others
  | dropEvents n => exact r.route_dropEvents n
  | modifyMetrics f => rfl
  | modify f => rfl
  | report e => rfl
  | streamView => rfl
  | eventsClosed n => rfl
  | get => rfl
  | metrics => rfl
  | elapsed => rfl

end Run

theorem Call.keeps_route (route : Option MatchedRoute) :
    Call.Keeps (fun _ => True) fun r : Run σ => r.route = route where
  perform r c _ hr := (r.route_perform c).trans hr
  streamDrop := trivial
  dropEvents _ := trivial

/-- Whatever a program does, the route of the request stays. -/
theorem Program.route_run (handler : Option (Handler σ)) (p : Program σ α) (r : Run σ) :
    (p.run handler r).2.route = r.route :=
  holds_run (Call.keeps_route r.route) handler p (fun _ _ => trivial) rfl

end HttpDispatch
