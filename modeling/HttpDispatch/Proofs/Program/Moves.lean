import HttpDispatch.Program.Run
import HttpDispatch.Proofs.Context.Moves
import HttpDispatch.Proofs.Stream.Moves

/-!
# What a program does to its request

A run is sound if everything that is open on it fits its exchange (`Run.Sound`). Every call keeps a
run sound and moves the state of its request (`Run.Advances`); by induction on the tree, so does
every program, however it ends and however deeply it calls the handler of its route.
-/

namespace HttpDispatch

variable {σ α : Type}

namespace Run

structure Sound (r : Run σ) : Prop where
  stream : ∀ s, r.stream = some s → s.Fits r.context.exchange
  events : ∀ h ∈ r.events, h.stream.emitter.Fits r.context.exchange

/-- A sound run goes on: the state of the request moves, and what is open then fits it. -/
def Advances (r r' : Run σ) : Prop := r.Sound → r.context.Moves r'.context ∧ r'.Sound

variable {r r' r'' : Run σ}

theorem Advances.refl (r : Run σ) : r.Advances r := fun h => ⟨.refl _, h⟩

theorem Advances.trans (h : r.Advances r') (h' : r'.Advances r'') : r.Advances r'' := by
  intro hs
  obtain ⟨hm, hs'⟩ := h hs
  obtain ⟨hm', hs''⟩ := h' hs'
  exact ⟨hm.trans hm', hs''⟩

theorem Sound.events_eq_nil (h : r.Sound) (hs : r.context.exchange.headersSent = false) :
    r.events = [] := by
  rw [List.eq_nil_iff_forall_not_mem]
  intro e he
  rw [(h.events e he).1] at hs
  cases hs

/-- After a move, whatever response stream fits may be open. -/
theorem Sound.of_moves (h : r.Sound) {c : Context} {stream : Option ResponseStream}
    (hm : r.context.Moves c) (hs : ∀ s, stream = some s → s.Fits c.exchange) :
    ({ r with context := c, stream } : Run σ).Sound :=
  ⟨hs, fun e he => (h.events e he).of_advances (.refl _) hm.exchange⟩

/-- A move that does not send the head does not disturb the response stream. -/
theorem advances_withContext {f : Context → Context} (hm : r.context.Moves (f r.context))
    (hs : (f r.context).exchange.headersSent = r.context.exchange.headersSent) :
    r.Advances (r.withContext f) :=
  fun h => ⟨hm, h.of_moves hm fun s hstream => (h.stream s hstream).congr hs hm.exchange.isHead_eq⟩

theorem stream_dropStream (r : Run σ) : r.dropStream.stream = none := by
  unfold dropStream
  split
  · assumption
  · rfl

theorem advances_dropStream (r : Run σ) : r.Advances r.dropStream := by
  intro h
  unfold dropStream
  split
  · exact ⟨.refl _, h⟩
  · next s hs =>
    have hm := Context.moves_withExchange (ResponseStream.moves_drop (h.stream s hs))
    refine ⟨hm, h.of_moves hm ?_⟩
    rintro _ ⟨⟩

theorem advances_onContext {ε : Type} {f : Context → Attempt Context ε α}
    (hf : ∀ c : Context, c.Moves (f c).2) (r : Run σ) : r.Advances (r.onContext f).2 := by
  refine (advances_dropStream r).trans ?_
  intro h
  have hm := hf r.dropStream.context
  refine ⟨hm, h.of_moves hm ?_⟩
  intro s hs
  rw [stream_dropStream] at hs
  cases hs

theorem advances_onStream {f : ResponseStream → Exchange → ResponseStream.On α}
    (hf : ∀ {s : ResponseStream} {x : Exchange}, s.Fits x → ResponseStream.Carries x (f s x).2)
    (r : Run σ) : r.Advances (r.onStream f).2 := by
  intro h
  unfold onStream
  split
  · exact ⟨.refl _, h⟩
  · next s hs =>
    obtain ⟨hm, hfits⟩ := hf (h.stream s hs)
    refine ⟨Context.moves_withExchange hm, h.of_moves (Context.moves_withExchange hm) ?_⟩
    rintro _ ⟨⟩
    exact hfits

theorem advances_openStream (r : Run σ) : r.Advances r.openStream.2 := by
  refine (advances_dropStream r).trans ?_
  unfold openStream
  simp only
  split
  · exact .refl _
  · next hs =>
    have hsent := Bool.eq_false_iff.2 hs
    intro h
    have hm := Context.moves_stamp hsent
    refine ⟨hm, h.of_moves hm ?_⟩
    rintro _ ⟨⟩
    exact hsent

/-- What is done to an event stream reaches the exchange through the emitter. -/
theorem advances_onEvents {f : EventStream (σ → σ) → α × EventStream (σ → σ)}
    (hf : ∀ s : EventStream (σ → σ), s.emitter.Advances (f s).2.emitter) (n : Nat) (dflt : α)
    (r : Run σ) :
    r.Advances (r.onEvents n dflt f).2 := by
  intro h
  unfold onEvents
  split
  · exact ⟨.refl _, h⟩
  · next held hn =>
    simp only
    generalize hb : ({ held.stream with
      emitter := { held.stream.emitter with
        out := r.context.exchange.out, log := r.context.exchange.log } } :
          EventStream (σ → σ)) = before
    have hfits : before.emitter.Fits r.context.exchange :=
      hb ▸ h.events held (List.mem_of_getElem? hn)
    have hm := hfits.moves (hb ▸ rfl) (hf before)
    refine ⟨Context.moves_withExchange hm, ?_, ?_⟩
    · intro s hs
      exact (h.stream s hs).of_moves hm hfits.1
    · intro e he
      rcases List.mem_or_eq_of_mem_set he with he | rfl
      · exact (h.events e he).of_advances (.refl _) hm
      · exact hfits.of_advances (hf before) hm

theorem advances_callEvents (n : Nat) (c : EventStream.Call (σ → σ)) (r : Run σ) :
    r.Advances (r.callEvents n c).2 :=
  advances_onEvents (fun s => EventStream.advances_call s c) n _ r

theorem Advances.withApp (h : r.Advances r') (app : σ) : r.Advances { r' with app } := by
  intro hs
  obtain ⟨hm, hs'⟩ := h hs
  exact ⟨hm, hs'.stream, hs'.events⟩

theorem advances_callElsewhere (n : Nat) (cs : List (NotedCall σ)) (r : Run σ) :
    r.Advances (r.callElsewhere n cs) := by
  induction cs generalizing r with
  | nil => exact advances_callEvents n .close r
  | cons c cs ih => exact ((advances_callEvents n c.call r).withApp _).trans (ih _)

theorem advances_dropEvents (n : Nat) (r : Run σ) : r.Advances (r.dropEvents n) := by
  unfold dropEvents
  split
  · have hev := advances_onEvents (f := fun s => ((), s.drop))
      (fun s => EventStream.advances_drop s) n () r
    generalize r.onEvents n () (fun s => ((), s.drop)) = p at hev ⊢
    obtain ⟨⟨⟩, r₁⟩ := p
    refine hev.trans ?_
    intro h
    refine ⟨.refl _, h.stream, ?_⟩
    intro e he
    obtain ⟨i, hi⟩ := List.mem_iff_getElem?.1 he
    rw [List.getElem?_modify] at hi
    obtain ⟨e', he', rfl⟩ := Option.map_eq_some_iff.1 hi
    have hfits := h.events e' (List.mem_of_getElem? he')
    split
    · exact hfits
    · exact hfits
  · exact .refl r

theorem advances_keepAlive (n : Nat) (others : List (NotedCall σ)) (r : Run σ) :
    r.Advances (r.keepAlive n others) := by
  have hparked : r.Advances (r.withContext (·.report (.eventStreamParked r.context.id))) :=
    advances_withContext (Context.moves_report _ _) rfl
  unfold keepAlive
  simp only
  generalize r.withContext (·.report (.eventStreamParked r.context.id)) = r₁ at hparked ⊢
  have hcalls := advances_callElsewhere n others r₁
  generalize r₁.callElsewhere n others = r₂ at hcalls ⊢
  have hlog : r₂.Advances
      { r₂ with elsewhere := r₂.elsewhere ++
        r₂.context.exchange.log.drop r₁.context.exchange.log.length } := by
    intro h
    exact ⟨.refl _, h.stream, h.events⟩
  refine (hparked.trans (hcalls.trans hlog)).trans ((advances_withContext ?_ rfl).trans
    (advances_dropEvents n _))
  exact Context.moves_onExchange (.single (.inside _ _ _ _ _))

theorem advances_openEvents (r : Run σ) : r.Advances r.openEvents.2 := by
  have hopen := Context.meets_openEvents (κ := σ → σ) r.dropStream.context
  have hr : r.Advances (r.onContext Context.openEvents).2 :=
    advances_onContext (f := Context.openEvents (κ := σ → σ))
      (fun c => (Context.meets_openEvents c).moves) r
  unfold openEvents
  rcases hres : r.onContext Context.openEvents with ⟨e | stream, r₁⟩
  · rw [hres] at hr
    exact hr
  · rw [hres] at hr
    have hfits := hopen.post stream (congrArg Prod.fst hres)
    have hcontext : r.dropStream.context.openEvents.2 = r₁.context :=
      congrArg (fun p => p.2.context) hres
    rw [hcontext] at hfits
    intro h
    obtain ⟨hm, hs⟩ := hr h
    refine ⟨hm, hs.stream, ?_⟩
    intro e he
    rcases List.mem_append.1 he with he | he
    · exact hs.events e he
    · rw [List.mem_singleton.1 he]
      exact hfits

theorem advances_perform (r : Run σ) (c : Call σ) : r.Advances (r.perform c).2 := by
  cases c with
  | view => exact advances_dropStream r
  | bodyBytes => exact advances_onContext Context.moves_bodyBytes r
  | bodyJson => exact advances_onContext Context.moves_bodyJson r
  | setAttributes a =>
      refine (advances_dropStream r).trans (advances_withContext ?_ rfl)
      exact Context.moves_onExchange (.single (.inside _ _ _ _ _))
  | setStatus s => exact advances_onContext (fun c => (Context.meets_setStatus c s).moves) r
  | setField n v => exact advances_onContext (fun c => (Context.meets_setField c n v).moves) r
  | openStream => exact advances_openStream r
  | streamWrite b => exact advances_onStream (fun h => ResponseStream.carries_write h b) r
  | streamWriteAll b => exact advances_onStream (fun h => ResponseStream.carries_writeAll h b) r
  | streamFlush => exact advances_onStream (fun h => ResponseStream.carries_flush h) r
  | streamFinish => exact advances_onStream (fun h => ResponseStream.carries_finish h) r
  | streamDrop => exact advances_dropStream r
  | serveRange source total contentType =>
      exact advances_onContext (fun c => Context.moves_serveRange c source total contentType) r
  | openEvents => exact advances_openEvents r
  | events n c => exact advances_callEvents n c r
  | keepAlive n others => exact advances_keepAlive n others r
  | dropEvents n => exact advances_dropEvents n r
  | modify f => exact (Advances.refl r).withApp _
  | modifyMetrics f =>
      intro h
      exact ⟨.refl _, h.stream, h.events⟩
  | report e => exact advances_withContext (Context.moves_report _ _) rfl
  | streamView => exact .refl r
  | eventsClosed n => exact .refl r
  | get => exact .refl r
  | metrics => exact .refl r
  | elapsed => exact .refl r

instance : IsPreorder (Run σ) Advances where
  refl := .refl
  trans _ _ _ := .trans

end Run

/-!
## From calls to programs

A preorder on runs that every call keeps to is kept to by every program, however it ends and however
deeply it calls the handler of its route.
-/

section

variable {R : Run σ → Run σ → Prop} [IsPreorder (Run σ) R]
  {route : Run σ → Option (Ending Response) × Run σ}

theorem Run.related_settle (hcall : ∀ r (c : Call σ), R r (r.perform c).2) (r : Run σ)
    (first : Nat) : R r (r.settle first) := by
  have hfold : ∀ (ns : List Nat) (r : Run σ), R r (ns.foldl dropEvents r) := by
    intro ns
    induction ns with
    | nil => exact fun r => refl_of R r
    | cons n ns ih => exact fun r => trans_of R (hcall r (.dropEvents n)) (ih _)
  exact trans_of R (hcall r .streamDrop) (hfold _ _)

namespace Program

theorem related_runWith (hcall : ∀ r (c : Call σ), R r (r.perform c).2)
    (hroute : ∀ r, R r (route r).2) (p : Program σ α) (r : Run σ) :
    R r (p.runWith route r).2 := by
  induction p generalizing r with
  | done a => exact refl_of R r
  | fail e => exact refl_of R r
  | panic m => exact refl_of R r
  | call c next ih => exact trans_of R (hcall r c) (ih _ _)
  | callRoute next ih =>
      have hr := trans_of R (hcall r .streamDrop) (hroute r.dropStream)
      rw [runWith]
      generalize route r.dropStream = called at hr ⊢
      rcases called with ⟨_ | ⟨a | e | m⟩, r₁⟩
      · exact trans_of R hr (ih _ _)
      · exact trans_of R hr (ih _ _)
      · exact trans_of R hr (ih _ _)
      · exact hr

theorem related_runAndSettle (hcall : ∀ r (c : Call σ), R r (r.perform c).2)
    (hroute : ∀ r, R r (route r).2) (p : Program σ α) (r : Run σ) :
    R r (p.runAndSettle route r).2 :=
  trans_of R (related_runWith hcall hroute p r) (Run.related_settle hcall _ _)

theorem related_runRoute (hcall : ∀ r (c : Call σ), R r (r.perform c).2)
    (handler : Option (Handler σ)) (depth : Nat) (r : Run σ) :
    R r (runRoute handler depth r).2 := by
  induction depth generalizing r with
  | zero => exact refl_of R r
  | succ depth ih =>
      cases handler with
      | none => exact refl_of R r
      | some h => exact related_runAndSettle hcall ih h r

theorem related_run (hcall : ∀ r (c : Call σ), R r (r.perform c).2) (handler : Option (Handler σ))
    (p : Program σ α) (r : Run σ) : R r (p.run handler r).2 :=
  related_runAndSettle hcall (related_runRoute hcall handler r.nesting.depth) p r

end Program

end

theorem Program.advances_run (handler : Option (Handler σ)) (p : Program σ α) (r : Run σ) :
    r.Advances (p.run handler r).2 :=
  related_run Run.advances_perform handler p r

end HttpDispatch
