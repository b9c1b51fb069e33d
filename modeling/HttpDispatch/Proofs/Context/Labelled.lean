import HttpDispatch.Proofs.Context.Range
import HttpDispatch.Proofs.Program.Spent
import HttpDispatch.Proofs.Stream.Fields

/-!
# The identifier on the response

The identifier of the request goes among the pending fields just before the head is sent, unless
there is a value under its name already. Heads are sent in several places, and each of them stamps
the response first: until then either nothing is pending under the name, or exactly the identifier
is (`Context.Labelled`), and from then on the response carries it once (`Context.Stamped`), whatever
is sent behind the head and whatever fails.
-/

namespace HttpDispatch

open Exchange

namespace Context

variable {c c' : Context} {α : Type}

def Stamped (c : Context) : Prop := c.exchange.fields.getAll .requestId = [c.id.fieldValue]

/-- The response carries the identifier of the request, or it may still be stamped with it. -/
def Labelled (c : Context) : Prop :=
  c.Stamped ∨ (c.exchange.sent = none ∧ c.exchange.pending.getAll .requestId = [])

/-- No head is sent from one to the other, and the same is pending under the name of the
identifier. -/
structure Waits (c c' : Context) : Prop where
  id : c'.id = c.id
  sent : c'.exchange.sent = c.exchange.sent
  pending : c'.exchange.pending.getAll .requestId = c.exchange.pending.getAll .requestId

theorem Waits.refl (c : Context) : c.Waits c := ⟨rfl, rfl, rfl⟩

theorem Waits.trans {c'' : Context} (h : c.Waits c') (h' : c'.Waits c'') : c.Waits c'' :=
  ⟨h'.id.trans h.id, h'.sent.trans h.sent, h'.pending.trans h.pending⟩

theorem Stamped.labelled (h : c.Stamped) : c.Labelled := .inl h

theorem Stamped.of_keeps (h : c.Stamped) (hid : c'.id = c.id)
    (hk : c.exchange.Keeps .requestId c'.exchange) : c'.Stamped := by
  rw [Stamped, hk, hid]
  exact h

theorem Stamped.withExchange {x : Exchange} (h : c.Stamped) (hk : c.exchange.Keeps .requestId x) :
    ({ c with exchange := x } : Context).Stamped :=
  h.of_keeps rfl hk

theorem Stamped.attempt {ε : Type} {f : Exchange → Attempt Exchange ε α} (h : c.Stamped)
    (hf : c.exchange.Keeps .requestId (f c.exchange).2) : (c.attempt f).2.Stamped :=
  h.of_keeps rfl hf

theorem Stamped.eraseLength (h : c.Stamped) :
    (c.onExchange (·.withPending (·.erase .contentLength))).Stamped :=
  h.withExchange (keeps_withPending (fun h => by rw [Headers.getAll_erase, if_neg (by decide)]) _)

theorem Waits.keeps (h : c.Waits c') : c.exchange.Keeps .requestId c'.exchange := by
  unfold Keeps fields
  rw [h.sent]
  cases c.exchange.sent with
  | none => exact h.pending
  | some head => rfl

theorem Waits.stamped (h : c.Waits c') (hc : c.Stamped) : c'.Stamped := hc.of_keeps h.id h.keeps

theorem Waits.labelled (h : c.Waits c') (hc : c.Labelled) : c'.Labelled := by
  obtain hc | ⟨hsent, hnone⟩ := hc
  · exact .inl (h.stamped hc)
  · exact .inr ⟨h.sent.trans hsent, h.pending.trans hnone⟩

theorem Labelled.getAll_head (h : c.Labelled) {head : ResponseHead}
    (hs : c.exchange.sent = some head) : head.headers.getAll .requestId = [c.id.fieldValue] := by
  obtain h | ⟨hnone, -⟩ := h
  · rwa [Stamped, fields_of_sent hs] at h
  · rw [hs] at hnone
    cases hnone

/-!
## What leaves the head unsent
-/

theorem waits_bodyBytes (c : Context) : c.Waits c.bodyBytes.2 := by
  unfold bodyBytes
  split
  · exact ⟨rfl, rfl, rfl⟩
  · refine Attempt.andThen_preserves (P := c.Waits) ?_ fun _ _ _ h => ⟨h.id, h.sent, h.pending⟩
    rw [Attempt.snd_mapError]
    exact ⟨rfl, rfl, rfl⟩

theorem waits_bodyJson (c : Context) : c.Waits c.bodyJson.2 :=
  Attempt.andThen_preserves (P := c.Waits) c.waits_bodyBytes fun _ _ _ h => h

theorem waits_setStatus (c : Context) (s : Status) : c.Waits (c.setStatus s).2 := by
  rw [setStatus, Attempt.snd_mapError, attempt, Exchange.setStatus]
  split <;> exact ⟨rfl, rfl, rfl⟩

theorem waits_setField {n : FieldName} (hn : n ≠ .requestId) (c : Context) (v : FieldValue) :
    c.Waits (c.setField n v).2 := by
  unfold setField
  split
  · exact ⟨rfl, rfl, rfl⟩
  · refine ⟨rfl, rfl, ?_⟩
    exact (Headers.getAll_insert _ _ _ _).trans (if_neg hn)

/-!
## What sends the head
-/

theorem Labelled.answering (h : c.Labelled) (hs : c.exchange.headersSent = false) (status : Status)
    {fields : Headers} (hf : fields.getAll .requestId =
      (c.exchange.pending.insertNew .requestId c.id.fieldValue).getAll .requestId) :
    (c.answering status fields).Stamped := by
  have hsent := sent_eq_none hs
  have hpending : c.exchange.pending.getAll .requestId = [c.id.fieldValue] ∨
      c.exchange.pending.getAll .requestId = [] := by
    rw [Labelled, Stamped, fields_of_unsent hsent] at h
    exact h.imp_right And.right
  rw [Stamped, fields_of_unsent (by exact hsent)]
  refine hf.trans ?_
  rw [Headers.getAll_insertNew]
  obtain hpending | hpending := hpending
  · rw [if_neg (by simp [hpending]), hpending]
    rfl
  · rw [if_pos ⟨rfl, hpending⟩]
    rfl

theorem Labelled.stamp (h : c.Labelled) (hs : c.exchange.headersSent = false) : c.stamp.Stamped :=
  h.answering hs c.exchange.status rfl

theorem Stamped.sendHeaders (h : c.Stamped) : c.sendHeaders.2.Stamped := by
  rw [Context.sendHeaders, Attempt.snd_mapError]
  exact h.attempt (keeps_sendHeaders (by decide) c.exchange)

theorem Stamped.copyPart (h : c.Stamped) (status : Status) (source : Source) (length : Nat) :
    (c.copyPart status source length).2.Stamped := by
  unfold Context.copyPart
  dsimp only
  generalize Copy.copyRange _ _ _ = r
  obtain ⟨e | result, copy⟩ := r
  · exact h
  · dsimp only
    split <;> exact h

theorem getAll_requestId_partFields (c : Context) (total : Nat) (mediaType : FieldValue)
    (range : Option ByteRange) :
    (c.partFields total mediaType range).getAll .requestId =
      (c.exchange.pending.insertNew .requestId c.id.fieldValue).getAll .requestId := by
  have har : FieldName.acceptRanges ≠ .requestId := by decide
  have ht : FieldName.contentType ≠ .requestId := by decide
  have hl : FieldName.contentLength ≠ .requestId := by decide
  have hr : FieldName.contentRange ≠ .requestId := by decide
  unfold partFields
  cases range <;> simp [har, ht, hl, hr]

theorem Labelled.sendPart (h : c.Labelled) (source : Source) (total : Nat) (mediaType : FieldValue)
    (range : Option ByteRange) : (c.sendPart source total mediaType range).2.Labelled := by
  cases hs : c.exchange.headersSent with
  | true =>
      unfold Context.sendPart
      dsimp only
      split
      · exact h
      · rw [setStatus_of_headersSent hs]
        exact h
  | false =>
      cases hseek : source.seekFailure with
      | some e =>
          unfold Context.sendPart Source.seek
          rw [hseek]
          exact h
      | none =>
          have hstamped := h.answering hs (partStatus range)
            (c.getAll_requestId_partFields total mediaType range)
          rw [sendPart_eq hs hseek]
          refine Stamped.labelled (Attempt.andThen_preserves (P := Stamped) hstamped.sendHeaders ?_)
          intro _ c₁ _ h₁
          split
          · exact h₁
          · exact h₁.copyPart _ _ _

theorem Labelled.serveRange (h : c.Labelled) (source : Source) (total : Nat)
    (contentType : String) : (c.serveRange source total contentType).2.Labelled := by
  rw [serveRange_eq]
  split
  · exact h
  · exact h.sendPart _ _ _ _
  · exact h.sendPart _ _ _ _

theorem Stamped.announceEvents {κ : Type} (h : c.Stamped) (state : EmitterState) :
    (c.announceEvents state : Attempt Context DispatchError (EventStream κ)).2.Stamped := h

theorem Labelled.openEvents {κ : Type} (h : c.Labelled) :
    (c.openEvents : Attempt Context DispatchError (EventStream κ)).2.Labelled := by
  unfold Context.openEvents
  split
  · exact h
  · refine Attempt.andThen_preserves (P := Labelled) ((c.waits_setStatus .ok).labelled h) ?_
    intro _ c₁ _ h₁
    refine Attempt.andThen_preserves (P := Labelled)
      ((waits_setField (by decide) c₁ _).labelled h₁) ?_
    intro _ c₂ _ h₂
    refine Attempt.andThen_preserves (P := Labelled)
      ((waits_setField (by decide) c₂ _).labelled h₂) ?_
    intro _ c₃ _ h₃
    refine Attempt.andThen_preserves (P := Labelled)
      ((waits_setField (by decide) c₃ _).labelled h₃) ?_
    intro _ c₄ hc₄ h₄
    have hs₄ : c₄.exchange.headersSent = false := by
      have hpost := (c₃.meets_setField .accelBuffering .no).post
      rw [hc₄] at hpost
      exact hpost _ rfl
    have hstamped := (h₄.stamp hs₄).eraseLength
    refine Stamped.labelled (Attempt.andThen_preserves (P := Stamped) hstamped.sendHeaders ?_)
    intro _ c₅ _ h₅
    split
    · exact h₅.announceEvents _
    · split
      · exact h₅
      · refine Attempt.andThen_preserves (P := Stamped) ?_ ?_
        · rw [Attempt.snd_mapError]
          exact h₅
        · intro _ c₆ _ h₆
          refine Attempt.andThen_preserves (P := Stamped) ?_ fun _ _ _ h₇ => h₇.announceEvents _
          rw [Attempt.snd_mapError]
          unfold attempt Exchange.detach
          split <;> exact h₆

end Context

end HttpDispatch
