import HttpDispatch.Proofs.Dispatcher.Invocations
import HttpDispatch.Proofs.Http.RequestId
import HttpDispatch.Proofs.Program.Labelled

/-!
# Every response names its request

The identifier of a request is the one that the client has sent, if it is readable, and else a fresh
one. Wherever the head of the response is sent from, the head carries the identifier once, unless
the application uses the field for something of its own; and since identifiers are read as they are
written, a request that carries what was sent back has the same identifier
(`Dispatcher.identified_dispatch`).
-/

namespace HttpDispatch

variable {σ : Type}

/-- The callback never sets the field: no call of it does, and no response that it
returns has it. -/
structure Invocation.Spares (n : FieldName) (i : Invocation σ) : Prop where
  calls : ∀ c ∈ i.calls, c.Spares n
  response : ∀ r, i.Returns r → r.headers.getAll n = []

/-- A callback that never sets the field of the identifier keeps the run labelled. -/
theorem Invocation.Spares.keeps {i : Invocation σ} (h : i.Spares .requestId) :
    i.Keeps Run.Labelled fun r => r.headers.getAll .requestId = [] :=
  ⟨Program.labelled_run i.handler i.program h.calls, h.response⟩

namespace Context

open Exchange

variable {c : Context} {r : Response}

theorem Labelled.commitStreamed (h : c.Labelled) : c.commitStreamed.2.Labelled := by
  unfold Context.commitStreamed
  split
  · exact h
  · next hs => exact (h.stamp (Bool.eq_false_iff.2 hs)).sendHeaders.labelled

theorem Labelled.commitBuffered (h : c.Labelled) (hs : c.exchange.headersSent = false)
    (status : Status) {fields : Headers} (hf : fields.getAll .requestId = []) (body : Bytes)
    (mediaType : Option FieldValue) :
    (c.commitBuffered status fields body mediaType).2.Labelled := by
  have ht : FieldName.contentType ≠ .requestId := by decide
  have hfields : (c.responseFields fields mediaType).getAll .requestId =
      (c.exchange.pending.insertNew .requestId c.id.fieldValue).getAll .requestId := by
    unfold responseFields
    cases mediaType <;> simp [hf, ht]
  have hstamped := h.answering hs status hfields
  rw [Context.commitBuffered, setStatus_of_pending hs, Attempt.andThen_ok]
  dsimp only
  split
  · exact hstamped.eraseLength.sendHeaders.labelled
  · exact (hstamped.attempt (keeps_sendBody (by decide) _ _ _ _ _)).labelled

theorem Labelled.commit (h : c.Labelled) (hr : r.headers.getAll .requestId = []) :
    (c.commit r).2.Labelled := by
  cases hs : c.exchange.headersSent with
  | true =>
      rw [Dispatcher.commit_of_headersSent hs]
      exact h
  | false =>
      unfold Context.commit
      split
      · exact h
      · exact h.commitStreamed
      · exact h.commitBuffered hs _ hr _ _

theorem waits_close (c : Context) : c.Waits c.close := by
  have hsent := c.exchange.released_close.sent
  have hpending : c.exchange.close.2.pending = c.exchange.pending := by
    unfold Exchange.close
    cases c.exchange.transport with
    | memory => rfl
    | wire =>
        dsimp only
        split <;> rfl
  unfold Context.close Context.attempt Attempt.inside
  generalize c.exchange.close = released at hsent hpending ⊢
  obtain ⟨e | ⟨⟩, y⟩ := released
  · exact ⟨rfl, hsent, congrArg (·.getAll .requestId) hpending⟩
  · exact ⟨rfl, hsent, congrArg (·.getAll .requestId) hpending⟩

end Context

theorem Run.waits_of_bare_eq {r r' : Run σ} (h : r.bare = r'.bare) : r.Waits r' := by
  have hc := congrArg Run.context h.symm
  have hx := congrArg Context.exchange hc
  exact ⟨⟨(congrArg Context.id hc :), (congrArg Exchange.sent hx :),
    (congrArg (fun x => x.pending.getAll .requestId) hx :)⟩, (congrArg Run.stream h.symm :)⟩

namespace Dispatcher

variable {d : Dispatcher σ} {s : Surroundings σ} {x : Exchange}

theorem getAll_requestId_ofError (e : DispatchError) (asJson : Bool) :
    (Response.ofError e asJson).headers.getAll .requestId = [] := by
  have hinternal : (Response.internalError asJson).headers.getAll .requestId = [] := by
    cases asJson <;> rfl
  cases e with
  | http e => cases asJson <;> rfl
  | _ => exact hinternal

theorem stable_labelled :
    Stable (Run.Labelled (σ := σ)) fun r => r.headers.getAll .requestId = [] where
  notes hr h := (Run.waits_of_bare_eq h).labelled hr
  streamed := rfl
  ofError := getAll_requestId_ofError

theorem labelled_arrive (hsent : x.sent = none) (hpending : x.pending.getAll .requestId = []) :
    (d.arrive s x).run.Labelled :=
  ⟨.inr ⟨hsent, hpending⟩, nofun⟩

theorem labelled_send {r : Response} {c : Context} (h : c.Labelled)
    (hr : r.headers.getAll .requestId = []) : (send r c).2.Labelled := by
  have hcommit := h.commit hr
  unfold send
  generalize c.commit r = attempt at hcommit ⊢
  obtain ⟨e | ⟨⟩, c₁⟩ := attempt
  · dsimp only
    split
    · exact hcommit
    · generalize hasJson : c₁.exchange.request.headers.acceptsJson = asJson
      have hreported : (c₁.report (.commitFailed c₁.id e)).Labelled := hcommit
      have hfallback :
          ((c₁.report (.commitFailed c₁.id e)).commit (.internalError asJson)).2.Labelled :=
        hreported.commit (getAll_requestId_ofError (.panic "") asJson)
      generalize (c₁.report (.commitFailed c₁.id e)).commit (.internalError asJson) =
        attempt at hfallback ⊢
      obtain ⟨e' | ⟨⟩, c₂⟩ := attempt
      · exact hfallback
      · exact hfallback
  · exact hcommit

theorem id_finish (r : Response) (p : Passage σ) :
    (finish r p).run.context.id = (finish r p).outcome.id := by
  unfold finish
  generalize send r p.run.context = result
  rfl

theorem labelled_finish {r : Response} {p : Passage σ} (h : p.run.Labelled)
    (hr : r.headers.getAll .requestId = []) : (finish r p).run.context.Labelled := by
  have hsend := labelled_send h.context hr
  unfold finish
  generalize send r p.run.context = result at hsend ⊢
  obtain ⟨status, c⟩ := result
  dsimp only
  split
  · exact c.waits_close.labelled hsend
  · exact hsend

theorem id_dispatch (d : Dispatcher σ) (s : Surroundings σ) (x : Exchange) :
    (d.dispatch s x).outcome.id = (RequestId.inbound? x.request.headers).getD s.freshId := by
  obtain ⟨response, p, steps, hd, -, hleads⟩ := d.leads_dispatch s x
  obtain ⟨hm, -⟩ := hleads.advances (d.sound_arrive s x)
  obtain ⟨hsend, -⟩ := send_moves response p.run.context
  rw [hd]
  refine Eq.trans ?_ (hsend.id.trans hm.id)
  unfold finish
  generalize send response p.run.context = result
  obtain ⟨status, c⟩ := result
  dsimp only
  split
  · exact c.waits_close.id
  · rfl

/-- Unless a callback sets the field of the identifier, the head that is sent in a dispatch carries
it once. A readable identifier that the client has sent is the one of the request, and another
request that carries what was sent back has it, too. -/
theorem identified_dispatch (hsent : x.sent = none) (hpending : x.pending.getAll .requestId = [])
    (hspares : ∀ i ∈ d.invocations s x, i.Spares .requestId) :
    (∀ head, (d.dispatch s x).run.context.exchange.sent = some head →
      ∃ v, head.headers.getAll .requestId = [v] ∧
        v.text? = some (d.dispatch s x).outcome.id.text ∧
        ∀ {τ : Type} (d' : Dispatcher τ) (s' : Surroundings τ) (x' : Exchange),
          x'.request.headers.get? .requestId = some v →
            (d'.dispatch s' x').outcome.id = (d.dispatch s x).outcome.id) ∧
      ∀ v text id, x.request.headers.get? .requestId = some v → v.text? = some text →
        RequestId.ofString (Text.trim text) = .ok id → (d.dispatch s x).outcome.id = id := by
  refine ⟨fun head hhead => ?_, fun v text id hv htext hid => ?_⟩
  · obtain ⟨hr, hp⟩ := stable_labelled.respond d s x (fun i hi => (hspares i hi).keeps)
      (labelled_arrive hsent hpending)
    have hlabelled := labelled_finish hp hr
    have hid := id_finish (d.respond s x).1 (d.respond s x).2
    rw [← d.dispatch_eq_finish s x] at hlabelled hid
    have hvalue := hlabelled.getAll_head hhead
    rw [hid] at hvalue
    refine ⟨_, hvalue, RequestId.text?_fieldValue _, ?_⟩
    intro τ d' s' x' hv
    rw [d'.id_dispatch, RequestId.inbound?_of_fieldValue hv]
    rfl
  · have hinbound : RequestId.inbound? x.request.headers = some id := by
      rw [RequestId.inbound?, hv, Option.bind_some, htext]
      dsimp only
      rw [hid]
      rfl
    rw [d.id_dispatch, hinbound]
    rfl

theorem exists_invoke_of_ok {α : Type} (p : Passage σ) (c : Callback σ) (course : α → Course)
    {program : Program σ α} {a : α} (h : (program.run p.handler p.run).1 = .ok a) :
    ∃ q, p.invoke c course program = (.ok a, q) := by
  unfold Passage.invoke
  generalize program.run p.handler p.run = ended at h
  obtain ⟨ending, r⟩ := ended
  cases h
  exact ⟨_, rfl⟩

theorem invocations_serving {h : Handler Unit} {x : Exchange} {r : Response}
    (hmethod : x.request.method = .get) (hpath : x.request.path = "/")
    (hok : (h.run (some h) (servingPassage h x).run).1 = .ok r) :
    (serving h).invocations { app := (), freshId := ⟨0⟩ } x =
      [(servingPassage h x).invocation (.handler h) h some] := by
  obtain ⟨q, hinvoke⟩ :=
    exists_invoke_of_ok (servingPassage h x) (.handler h) (fun _ => .continued) hok
  unfold invocations
  rw [hmethod, hpath, route?_serving]
  dsimp only
  -- nothing is run before the handler, and nobody is asked about roles
  generalize hp : (serving h).routed { app := (), freshId := ⟨0⟩ } x (servingEntry h) = p
  have hpath' : p.run.context.exchange.request.path = "/" := hp ▸ hpath
  have haccess : (serving h).checkAccess [] ((p.enter .beforeFilters).enter .handler) =
      (.ok (), servingPassage h x) := hp ▸ rfl
  have hserved : (serving h).handlerInvocations [] h (p.enter .beforeFilters) =
      [(servingPassage h x).invocation (.handler h) h some] := by
    unfold handlerInvocations
    rw [haccess]
    dsimp only
    rw [hinvoke]
    rfl
  unfold routeInvocations
  dsimp only
  rw [hpath', beforeFor_serving, afterFor_serving]
  exact (List.append_nil _).trans hserved

/-- A request that has been given an identifier on its way, in small letters. -/
def askingAs : Exchange :=
  .inMemory { method := .get, path := "/",
              headers :=
                Headers.empty.insert .requestId (.ofString " 01arz3ndektsv4rrffq69g5fav") } [] {}

theorem spares_careless :
    ∀ i ∈ (serving careless).invocations { app := (), freshId := ⟨0⟩ } askingAs,
      i.Spares .requestId := by
  have hok : ∀ (handler : Option (Handler Unit)) (r : Run Unit),
      (careless.run handler r).1 = .ok .streamed :=
    fun _ _ => rfl
  have hcalls : ∀ (handler : Option (Handler Unit)) (r : Run Unit), careless.calls handler r =
      [.openStream, .streamWriteAll [104, 101, 108, 108, 111]] := fun _ _ => rfl
  rw [invocations_serving rfl rfl (hok _ _)]
  intro i hi
  rw [List.mem_singleton.1 hi]
  constructor
  · intro c hc v
    have hmem : c ∈ [Call.openStream, .streamWriteAll [104, 101, 108, 108, 111]] := hcalls _ _ ▸ hc
    simp only [List.mem_cons, List.not_mem_nil, or_false] at hmem
    obtain rfl | rfl := hmem <;> exact nofun
  · rintro r ⟨a, ha, hr⟩
    cases (hok _ _).symm.trans ha
    cases hr
    rfl

/-- The head of what is streamed carries that identifier, in capitals. -/
theorem identified_dispatch_careless :
    (∀ i ∈ (serving careless).invocations { app := (), freshId := ⟨0⟩ } askingAs,
      i.Spares .requestId) ∧
      ∃ head v, ((serving careless).dispatch { app := (), freshId := ⟨0⟩ }
          askingAs).run.context.exchange.sent = some head ∧
        head.headers.getAll .requestId = [v] ∧ v.text? = some "01ARZ3NDEKTSV4RRFFQ69G5FAV" := by
  obtain ⟨hecho, hinbound⟩ := identified_dispatch rfl rfl spares_careless
  have hid := hinbound (.ofString " 01arz3ndektsv4rrffq69g5fav") " 01arz3ndektsv4rrffq69g5fav"
    ⟨0x01563E3AB5D3D6764C61EFB99302BD5B⟩ (by decide +kernel) (by decide +kernel) (by decide +kernel)
  have hsent : ((serving careless).dispatch { app := (), freshId := ⟨0⟩ }
      askingAs).run.context.exchange.headersSent = true := by decide +kernel
  obtain ⟨head, hhead⟩ := Option.isSome_iff_exists.1 hsent
  obtain ⟨v, hv, htext, -⟩ := hecho head hhead
  refine ⟨spares_careless, head, v, hhead, hv, ?_⟩
  rw [htext, hid]
  decide +kernel

end Dispatcher

end HttpDispatch
