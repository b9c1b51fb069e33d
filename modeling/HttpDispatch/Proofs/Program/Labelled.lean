import HttpDispatch.Proofs.Context.Labelled
import HttpDispatch.Proofs.Program.Calls

/-!
# Programs leave the identifier alone

A response stream is opened on a response that has been stamped, so that its head carries the
identifier whenever the stream sends it. A run is labelled if its response is, and has been stamped
when a response stream is open (`Run.Labelled`). The only call that can spoil this is one that sets
the field of the identifier: a program that makes no such call keeps a run labelled
(`Program.labelled_run`).
-/

namespace HttpDispatch

variable {σ α : Type}

def Call.Spares (n : FieldName) (c : Call σ) : Prop := ∀ v, c ≠ .setField n v

namespace Run

variable {r r' r'' : Run σ}

/-- The response carries the identifier of the request or may still be stamped with it; it carries
it if a response stream is open. -/
structure Labelled (r : Run σ) : Prop where
  context : r.context.Labelled
  stream : r.stream.isSome = true → r.context.Stamped

structure Waits (r r' : Run σ) : Prop where
  context : r.context.Waits r'.context
  stream : r'.stream = r.stream

theorem Waits.refl (r : Run σ) : r.Waits r := ⟨.refl _, rfl⟩

theorem Waits.trans (h : r.Waits r') (h' : r'.Waits r'') : r.Waits r'' :=
  ⟨h.context.trans h'.context, h'.stream.trans h.stream⟩

theorem Waits.labelled (h : r.Waits r') (hr : r.Labelled) : r'.Labelled :=
  ⟨h.context.labelled hr.context, fun hs => h.context.stamped (hr.stream (h.stream ▸ hs))⟩

theorem waits_onEvents (r : Run σ) (n : Nat) (dflt : α)
    (f : EventStream (σ → σ) → α × EventStream (σ → σ)) : r.Waits (r.onEvents n dflt f).2 := by
  unfold onEvents
  split
  · exact .refl r
  · exact ⟨⟨rfl, rfl, rfl⟩, rfl⟩

theorem waits_callElsewhere (n : Nat) (cs : List (NotedCall σ)) (r : Run σ) :
    r.Waits (r.callElsewhere n cs) := by
  induction cs generalizing r with
  | nil => exact r.waits_onEvents n _ _
  | cons c cs ih =>
      have hcall : r.Waits (r.callEvents n c.call).2 := r.waits_onEvents n _ _
      have hnoted : r.Waits { (r.callEvents n c.call).2 with
          app := c.note (r.callEvents n c.call).1 (r.callEvents n c.call).2.app } :=
        ⟨hcall.context, hcall.stream⟩
      exact hnoted.trans (ih _)

theorem waits_dropEvents (n : Nat) (r : Run σ) : r.Waits (r.dropEvents n) := by
  unfold dropEvents
  split
  · have h := r.waits_onEvents n () fun s => ((), s.drop)
    exact ⟨h.context, h.stream⟩
  · exact .refl r

theorem waits_keepAlive (n : Nat) (others : List (NotedCall σ)) (r : Run σ) :
    r.Waits (r.keepAlive n others) := by
  have hparked : r.Waits (r.withContext (·.report (.eventStreamParked r.context.id))) :=
    ⟨⟨rfl, rfl, rfl⟩, rfl⟩
  have hcalls := hparked.trans (waits_callElsewhere n others _)
  unfold keepAlive
  dsimp only
  refine Waits.trans ?_ (waits_dropEvents n _)
  exact ⟨⟨hcalls.context.id, hcalls.context.sent, hcalls.context.pending⟩, hcalls.stream⟩

theorem Labelled.dropStream (h : r.Labelled) : r.dropStream.Labelled := by
  unfold Run.dropStream
  split
  · exact h
  · next s hs =>
    have hstamped := (h.stream (hs ▸ rfl)).withExchange (s.keeps_drop (by decide) _)
    exact ⟨hstamped.labelled, nofun⟩

theorem Labelled.onContext {ε : Type} {f : Context → Attempt Context ε α}
    (hf : ∀ {c : Context}, c.Labelled → (f c).2.Labelled) (h : r.Labelled) :
    (r.onContext f).2.Labelled := by
  refine ⟨hf h.dropStream.context, fun hs => ?_⟩
  have hnone : (r.onContext f).2.stream = none := r.stream_dropStream
  rw [hnone] at hs
  cases hs

theorem Labelled.onStream {f : ResponseStream → Exchange → ResponseStream.On α}
    (hf : ∀ s x, Exchange.Keeps .requestId x (f s x).2.2) (h : r.Labelled) :
    (r.onStream f).2.Labelled := by
  unfold Run.onStream
  split
  · exact h
  · next s hs =>
    have hstamped := (h.stream (hs ▸ rfl)).withExchange (hf s _)
    exact ⟨hstamped.labelled, fun _ => hstamped⟩

theorem Labelled.openStream (h : r.Labelled) : r.openStream.2.Labelled := by
  have hdropped := h.dropStream
  unfold Run.openStream
  dsimp only
  split
  · exact hdropped
  · next hs =>
    have hstamped := hdropped.context.stamp (Bool.eq_false_iff.2 hs)
    exact ⟨hstamped.labelled, fun _ => hstamped⟩

theorem Labelled.openEvents (h : r.Labelled) : r.openEvents.2.Labelled := by
  have hopened := h.onContext (f := Context.openEvents (κ := σ → σ)) Context.Labelled.openEvents
  unfold Run.openEvents
  generalize r.onContext (Context.openEvents (κ := σ → σ)) = opened at hopened ⊢
  obtain ⟨e | stream, r₁⟩ := opened
  · exact hopened
  · exact ⟨hopened.context, hopened.stream⟩

theorem Labelled.perform (h : r.Labelled) {c : Call σ} (hc : c.Spares .requestId) :
    (r.perform c).2.Labelled := by
  cases c with
  | view => exact h.dropStream
  | streamDrop => exact h.dropStream
  | setAttributes a =>
      have hwaits : r.dropStream.Waits (r.perform (.setAttributes a)).2 := ⟨⟨rfl, rfl, rfl⟩, rfl⟩
      exact hwaits.labelled h.dropStream
  | bodyBytes => exact h.onContext fun hc => (Context.waits_bodyBytes _).labelled hc
  | bodyJson => exact h.onContext fun hc => (Context.waits_bodyJson _).labelled hc
  | setStatus s => exact h.onContext fun hc => (Context.waits_setStatus _ s).labelled hc
  | setField n v =>
      have hn : n ≠ .requestId := by
        rintro rfl
        exact hc v rfl
      exact h.onContext fun hc => (Context.waits_setField hn _ v).labelled hc
  | serveRange source total contentType =>
    exact h.onContext fun hc => hc.serveRange source total contentType
  | openStream => exact h.openStream
  | openEvents => exact h.openEvents
  | streamWrite b => exact h.onStream fun s x => s.keeps_write (by decide) x b
  | streamWriteAll b => exact h.onStream fun s x => s.keeps_writeAll (by decide) x b
  | streamFlush => exact h.onStream fun s x => s.keeps_flush x
  | streamFinish => exact h.onStream fun s x => s.keeps_finish (by decide) x
  | events n c => exact (r.waits_onEvents n _ _).labelled h
  | keepAlive n others => exact (r.waits_keepAlive n others).labelled h
  | dropEvents n => exact (r.waits_dropEvents n).labelled h
  | modify f => exact ⟨h.context, h.stream⟩
  | modifyMetrics f => exact ⟨h.context, h.stream⟩
  | report e =>
      have hwaits : r.Waits (r.perform (.report e)).2 := ⟨⟨rfl, rfl, rfl⟩, rfl⟩
      exact hwaits.labelled h
  | streamView => exact h
  | eventsClosed n => exact h
  | get => exact h
  | metrics => exact h
  | elapsed => exact h

end Run

theorem Call.keeps_labelled : Call.Keeps (Call.Spares .requestId) (Run.Labelled (σ := σ)) where
  perform _ _ hc hr := hr.perform hc
  streamDrop := nofun
  dropEvents _ := nofun

/-- A program that never sets the field of the identifier keeps a run labelled. -/
theorem Program.labelled_run {r : Run σ} (handler : Option (Handler σ)) (p : Program σ α)
    (hcalls : ∀ c ∈ p.calls handler r, c.Spares .requestId) (hr : r.Labelled) :
    (p.run handler r).2.Labelled :=
  holds_run Call.keeps_labelled handler p hcalls hr

end HttpDispatch
