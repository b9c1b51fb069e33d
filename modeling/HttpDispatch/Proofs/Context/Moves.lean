import HttpDispatch.Context.Commit
import HttpDispatch.Context.Events
import HttpDispatch.Context.Range
import HttpDispatch.Proofs.EventStream.Moves
import HttpDispatch.Proofs.Stream.Buffered

/-!
# What the state of a request may go through

Whatever is attempted on the state of a request moves its exchange, never takes back that the
response was cut short, and leaves the identifier and the settings alone (`Context.Moves`). What an
attempt achieves beyond that is said where it matters: after a field or a status has been set the
head is still unsent, and a response that has been committed has had its head sent with its own
status.
-/

namespace HttpDispatch

open Attempt

structure Context.Moves (c c' : Context) : Prop where
  exchange : c.exchange.Moves c'.exchange
  truncated : c.truncated = true → c'.truncated = true
  id : c'.id = c.id
  settings : c'.settings = c.settings
  codec : c'.codec = c.codec
  coder : c'.coder = c.coder

instance : IsTrans Context Context.Moves where
  trans _ _ _ h h' :=
    ⟨h.exchange.trans h'.exchange, fun ht => h'.truncated (h.truncated ht), h'.id.trans h.id,
      h'.settings.trans h.settings, h'.codec.trans h.codec, h'.coder.trans h.coder⟩

/-- Copying a range does nothing to the writer but call it. -/
theorem Copy.moves_run (c : Copy) (total piece remaining written : Nat) :
    c.out.Moves (c.run total piece remaining written).2.out := by
  induction c, remaining, written using Copy.run.induct piece with
  | case1 c written out hf =>
      have hm := Writer.Move.flush c.out
      rw [hf] at hm
      rw [run, if_pos rfl, hf]
      exact .single hm
  | case2 c written e out hf =>
      have hm := Writer.Move.flush c.out
      rw [hf] at hm
      rw [run, if_pos rfl, hf]
      exact .single hm
  | case3 c remaining written h e source hr =>
      rw [run, if_neg h, hr]
  | case4 c remaining written h source hr =>
      rw [run, if_neg h, hr]
      exact .refl
  | case5 c remaining written h b bs source hr e out hw =>
      have hm := Writer.Move.writeAll c.out (b :: bs)
      rw [hw] at hm
      rw [run, if_neg h, hr]
      simp only [hw]
      exact .single hm
  | case6 c remaining written h b bs source hr out hw ih =>
      have hm := Writer.Move.writeAll c.out (b :: bs)
      rw [hw] at hm
      rw [run, if_neg h, hr]
      simp only [hw]
      exact .head hm ih

theorem Response.isStreamed_of_payload? {r : Response} {codec : Codec}
    (h : r.body.payload? codec = .ok none) : r.isStreamed = true := by
  unfold isStreamed
  cases hb : r.body with
  | streamed => rfl
  | json v =>
      rw [hb] at h
      simp only [Body.payload?] at h
      rcases hv : codec.encode v with e | b <;> rw [hv] at h <;> cases h
  | _ =>
      rw [hb] at h
      cases h

namespace Context

variable {c c' : Context} {ε α : Type}

theorem Moves.refl (c : Context) : c.Moves c := ⟨.refl, fun ht => ht, rfl, rfl, rfl, rfl⟩

theorem Moves.trans {c'' : Context} (h : c.Moves c') (h' : c'.Moves c'') : c.Moves c'' :=
  IsTrans.trans _ _ _ h h'

theorem moves_withExchange {x : Exchange} (h : c.exchange.Moves x) :
    c.Moves { c with exchange := x } :=
  ⟨h, fun ht => ht, rfl, rfl, rfl, rfl⟩

theorem moves_onExchange {f : Exchange → Exchange} (h : c.exchange.Moves (f c.exchange)) :
    c.Moves (c.onExchange f) :=
  moves_withExchange h

theorem moves_report (c : Context) (e : LogEvent) : c.Moves (c.report e) :=
  moves_onExchange (Exchange.moves_report c.exchange e)

theorem moves_truncate (c : Context) : c.Moves c.truncate :=
  ⟨.refl, fun _ => rfl, rfl, rfl, rfl, rfl⟩

theorem moves_withPending (h : c.exchange.headersSent = false) (f : Headers → Headers) :
    c.Moves (c.onExchange (·.withPending f)) :=
  moves_onExchange (Exchange.moves_withPending h f)

theorem moves_stamp (h : c.exchange.headersSent = false) : c.Moves c.stamp :=
  moves_withPending h _

theorem meets_attempt {f : Exchange → Attempt Exchange ε α} {Q : α → Exchange → Prop}
    (h : Meets Exchange.Moves c.exchange (f c.exchange) Q) :
    Meets Context.Moves c (c.attempt f) fun a c' => Q a c'.exchange :=
  h.inside (fun _ hm => moves_withExchange hm) fun _ _ hq => hq

theorem moves_attempt {f : Exchange → Attempt Exchange ε α}
    (h : c.exchange.Moves (f c.exchange).2) : c.Moves (c.attempt f).2 :=
  moves_withExchange h

theorem moves_bodyBytes (c : Context) : c.Moves c.bodyBytes.2 := by
  unfold bodyBytes
  split
  · exact .refl c
  · refine Attempt.andThen_preserves (P := c.Moves) ?_ ?_
    · rw [Attempt.snd_mapError]
      exact moves_attempt (Exchange.moves_readBody c.exchange)
    · intro b c' _ h
      exact ⟨h.exchange, h.truncated, h.id, h.settings, h.codec, h.coder⟩

theorem moves_bodyJson (c : Context) : c.Moves c.bodyJson.2 :=
  Attempt.andThen_preserves (P := c.Moves) c.moves_bodyBytes fun _ _ _ h => h

theorem meets_setStatus (c : Context) (s : Status) :
    Meets Context.Moves c (c.setStatus s) fun _ c' =>
      c'.exchange.headersSent = false ∧ c'.exchange.status = s := by
  refine (meets_attempt (Q := fun _ x => x.headersSent = false ∧ x.status = s) ?_).mapError _
  refine ⟨Exchange.moves_setStatus c.exchange s, ?_⟩
  unfold Exchange.setStatus
  split
  · rintro _ ⟨⟩
  · next h => exact fun _ _ => ⟨Bool.eq_false_iff.2 h, rfl⟩

theorem meets_setField (c : Context) (n : FieldName) (v : FieldValue) :
    Meets Context.Moves c (c.setField n v) fun _ c' => c'.exchange.headersSent = false := by
  unfold setField
  split
  · exact meets_error (.refl c)
  · next h =>
    have hs : c.exchange.headersSent = false := Bool.eq_false_iff.2 h
    exact meets_ok (moves_withPending hs _) hs

theorem meets_sendHeaders (c : Context) :
    Meets Context.Moves c c.sendHeaders fun _ c' =>
      c'.exchange.headersSent = true ∧ c'.exchange.status = c.exchange.status :=
  (meets_attempt (Exchange.meets_sendHeaders c.exchange)).mapError _

theorem moves_copyPart (h : c.exchange.headersSent = true) (hh : c.exchange.isHead = false)
    (status : Status) (source : Source) (length : Nat) :
    c.Moves (c.copyPart status source length).2 := by
  unfold copyPart Copy.copyRange
  simp only
  have hw := Copy.moves_run { source, out := c.exchange.out, log := c.exchange.log } length
    (c.settings.range.chunkSize - 1) length 0
  generalize Copy.run { source, out := c.exchange.out, log := c.exchange.log } length
    (c.settings.range.chunkSize - 1) length 0 = r at hw ⊢
  obtain ⟨result, copy⟩ := r
  have hm : c.Moves (c.onExchange fun x => { x with out := copy.out, log := copy.log }) := by
    refine moves_onExchange (.head (.body c.exchange copy.out h hh hw) (.single ?_))
    exact .inside _ c.exchange.body c.exchange.attributes c.exchange.detached copy.log
  rcases result with e | r
  · exact hm
  · simp only
    split
    · exact hm.trans (moves_report _ _)
    · exact (hm.trans (moves_truncate _)).trans (moves_report _ _)

theorem moves_sendPart (c : Context) (source : Source) (total : Nat) (mediaType : FieldValue)
    (range : Option ByteRange) : c.Moves (c.sendPart source total mediaType range).2 := by
  unfold sendPart
  simp only
  generalize (if range.isSome = true then Status.partialContent else Status.ok) = status
  generalize (range.map (·.length)).getD total = length
  split
  · exact .refl c
  · next source _ =>
    refine Meets.moves (Q := fun _ _ => True) ?_
    refine (meets_setStatus c status).andThen ?_
    intro _ c₁ _ _
    refine (meets_setField c₁ _ _).andThen ?_
    intro _ c₂ _ _
    refine (meets_setField c₂ _ _).andThen ?_
    intro _ c₃ _ _
    refine (meets_setField c₃ _ _).andThen ?_
    intro _ c₄ _ hs₄
    refine Meets.andThen (Q := fun _ c' => c'.exchange.headersSent = false) ?_ ?_
    · cases range with
      | none => exact meets_ok (.refl c₄) hs₄
      | some r => exact meets_setField c₄ _ _
    · intro _ c₅ _ hs₅
      refine ((meets_sendHeaders c₅.stamp).after (moves_stamp hs₅)).andThen ?_
      intro _ c₆ _ hs₆
      split
      · exact meets_ok (.refl c₆) trivial
      · next hbody =>
        have hh : c₆.exchange.isHead = false := by
          rw [Bool.or_eq_true, not_or] at hbody
          exact Bool.eq_false_iff.2 hbody.1
        exact meets_of_moves (moves_copyPart hs₆.1 hh status source length)

theorem moves_serveRange (c : Context) (source : Source) (total : Nat) (contentType : String) :
    c.Moves (c.serveRange source total contentType).2 := by
  unfold serveRange
  simp only
  split
  · exact moves_report c _
  · exact moves_sendPart c _ _ _ _
  · exact moves_sendPart c _ _ _ _

theorem meets_announceEvents {κ : Type} {state : EmitterState}
    (h : (c.emitter state).Fits c.exchange) :
    Meets Context.Moves c (c.announceEvents state : Attempt Context DispatchError (EventStream κ))
      fun s c' => s.emitter.Fits c'.exchange := by
  have hopened : ∀ e, (c.emitter state).Advances e →
      Meets Context.Moves c
        ((.ok { id := c.id, remote := c.exchange.request.remote, emitter := e },
          (c.withEmitter e).report (.eventStreamOpened c.id)) :
            Attempt Context DispatchError (EventStream κ))
        fun s c' => s.emitter.Fits c'.exchange := by
    intro e ha
    have hm := (moves_onExchange (h.moves rfl ha)).trans
      (moves_report (c.withEmitter e) (.eventStreamOpened c.id))
    exact meets_ok hm (h.of_advances ha hm.exchange)
  unfold announceEvents
  cases c.settings.events.retryMillis with
  | none => exact hopened _ (.refl _)
  | some millis =>
      have ha := Emitter.advances_emit (c.emitter state) (.retry millis)
      simp only
      generalize (c.emitter state).emit (.retry millis) = r at ha ⊢
      obtain ⟨e | ⟨⟩, e'⟩ := r
      · exact hopened _ ⟨ha.out, ha.silent, ha.state⟩
      · exact hopened _ ha

theorem meets_openEvents {κ : Type} (c : Context) :
    Meets Context.Moves c (c.openEvents : Attempt Context DispatchError (EventStream κ))
      fun s c' => s.emitter.Fits c'.exchange := by
  unfold openEvents
  split
  · exact meets_error (.refl c)
  · refine (meets_setStatus c .ok).andThen ?_
    intro _ c₁ _ _
    refine (meets_setField c₁ _ _).andThen ?_
    intro _ c₂ _ _
    refine (meets_setField c₂ _ _).andThen ?_
    intro _ c₃ _ _
    refine (meets_setField c₃ _ _).andThen ?_
    intro _ c₄ _ hs₄
    have hm : c₄.Moves (c₄.stamp.onExchange (·.withPending (·.erase .contentLength))) :=
      (moves_stamp hs₄).trans (moves_withPending (c := c₄.stamp) hs₄ _)
    refine ((meets_sendHeaders _).after hm).andThen ?_
    intro _ c₅ _ hs₅
    split
    · refine meets_announceEvents ⟨hs₅.1, ?_⟩
      rintro ⟨⟩
    · next hhead =>
      have hh₅ : c₅.exchange.isHead = false := Bool.eq_false_iff.2 hhead
      split
      · exact meets_error (.refl c₅)
      · have hf := meets_of_moves (moves_attempt (Exchange.moves_flush hs₅.1 hh₅))
        refine (hf.mapError _).andThen ?_
        intro _ c₆ hm₆ _
        have hd := meets_of_moves (moves_attempt (Exchange.moves_detach c₆.exchange))
        refine (hd.mapError _).andThen ?_
        intro _ c₇ hm₇ _
        have hm : c₅.exchange.Moves c₇.exchange := hm₆.exchange.trans hm₇.exchange
        exact meets_announceEvents
          ⟨hm.headersSent_mono hs₅.1, fun _ => hm.isHead_eq.trans hh₅⟩

theorem meets_commitStreamed (c : Context) :
    Meets Context.Moves c c.commitStreamed fun _ c' => c'.exchange.headersSent = true := by
  unfold commitStreamed
  split
  · next hs => exact meets_ok (.refl c) hs
  · next hs =>
    have hm := moves_stamp (c := c) (Bool.eq_false_iff.2 hs)
    exact ((meets_sendHeaders c.stamp).after hm).mono fun _ _ _ h => h.1

theorem meets_commitBuffered (c : Context) (status : Status) (fields : Headers) (body : Bytes)
    (mediaType : Option FieldValue) :
    Meets Context.Moves c (c.commitBuffered status fields body mediaType) fun _ c' =>
      c'.exchange.headersSent = true ∧ c'.exchange.status = status := by
  unfold commitBuffered
  refine (meets_setStatus c status).andThen ?_
  rintro _ c₁ - ⟨hs, rfl⟩
  simp only
  generalize c₁.responseFields fields mediaType = pending
  have hm := moves_withPending hs fun _ => pending
  generalize hc : c₁.onExchange (·.withPending fun _ => pending) = c₂ at hm ⊢
  have hs₂ : c₂.exchange.headersSent = false := hc ▸ hs
  have hstatus : c₂.exchange.status = c₁.exchange.status := hc ▸ rfl
  rw [← hstatus]
  split
  · exact (meets_sendHeaders _).after (hm.trans (moves_withPending hs₂ _))
  · have hsend := meets_attempt
      (f := fun x => x.sendBody c₂.coder c₂.settings.compression body (!x.isHead))
      (Exchange.meets_sendBody hs₂ _ _ _)
    exact hsend.after hm

/-- After a response has been committed the head has been sent, with the response's own status
unless its body had been written already. -/
theorem meets_commit (c : Context) (r : Response) :
    Meets Context.Moves c (c.commit r) fun _ c' =>
      c'.exchange.headersSent = true ∧ (r.isStreamed = false → c'.exchange.status = r.status) := by
  unfold commit
  split
  · exact meets_error (.refl c)
  · next h =>
    refine (meets_commitStreamed c).mono ?_
    intro _ c' _ hs
    refine ⟨hs, ?_⟩
    intro hr
    rw [Response.isStreamed_of_payload? h] at hr
    cases hr
  · exact (meets_commitBuffered c _ _ _ _).mono fun _ _ _ h => ⟨h.1, fun _ => h.2⟩

end Context

end HttpDispatch
