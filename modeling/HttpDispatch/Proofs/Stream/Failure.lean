import HttpDispatch.Proofs.Stream.Moves

/-!
# Response streams that fail

A response stream fails on the way to the client: when its head cannot be delivered, or what is
written behind it. Either way the head counts as sent from then on (`ResponseStream.FailsSent`),
unless the exchange had been closed before.
-/

namespace HttpDispatch

theorem Exchange.headersSent_sendHeaders {x : Exchange} (hc : x.closed = false) :
    x.sendHeaders.2.headersSent = true := by
  cases hs : x.headersSent with
  | true =>
      rw [sendHeaders_of_headersSent hc hs]
      exact hs
  | false =>
      obtain ⟨out, n, heq, -⟩ := sendHeaders_cases hc hs
      rw [heq]
      rfl

namespace ResponseStream

variable {α : Type} {s : ResponseStream} {x y : Exchange}

/-- If the stream has failed on the way from `s`, the head has been sent. -/
def FailsSent (s : ResponseStream) (t : ResponseStream × Exchange) : Prop :=
  t.1.failed = true → s.failed = true ∨ t.2.headersSent = true

theorem FailsSent.refl (s : ResponseStream) (x : Exchange) : s.FailsSent (s, x) := Or.inl

theorem failsSent_of_headersSent {t : ResponseStream × Exchange} (h : t.2.headersSent = true) :
    s.FailsSent t :=
  fun _ => .inr h

theorem Carries.failsSent {t : ResponseStream × Exchange} (h : Carries x t)
    (hs : x.headersSent = true) : s.FailsSent t :=
  failsSent_of_headersSent (h.1.headersSent_mono hs)

/-- A stream on which nothing has been sent yet is in its first state, or it is closed. -/
theorem Fits.sink_of_headersSent_eq_false (h : s.Fits x) (hs : x.headersSent = false) :
    s.sink = .pending ∨ s.sink = .closed := by
  unfold Fits at h
  split at h
  · next hsink => exact .inl hsink
  · rw [hs] at h
    cases h.1
  · rw [hs] at h
    cases h.1
  · rw [hs] at h
    cases h.1
  · next hsink => exact .inr hsink

theorem headersSent_start (hc : x.closed = false) (size : Nat) :
    (s.start x size).2.2.headersSent = true := by
  unfold start
  simp only
  generalize s.settings.choose x.request.headers x.pending size = coding
  have hsent :=
    Exchange.headersSent_sendHeaders (x := x.withPending (·.withCoding s.settings coding)) hc
  rcases hsend : (x.withPending (·.withCoding s.settings coding)).sendHeaders with ⟨e | ⟨⟩, y⟩
  · rw [hsend] at hsent
    exact hsent
  · rw [hsend] at hsent
    exact hsent

theorem failsSent_write (h : s.Fits x) (hc : x.closed = false) (b : Bytes) :
    s.FailsSent (s.write x b).2 := by
  cases hs : x.headersSent with
  | true => exact (carries_write h b).failsSent hs
  | false =>
      unfold write
      split
      · exact .refl s x
      · obtain hsink | hsink := h.sink_of_headersSent_eq_false hs
        · rw [if_pos hsink]
          refine failsSent_of_headersSent (Attempt.andThen_preserves
            (P := fun t => Carries x t ∧ t.2.headersSent = true) ?_ ?_).2
          · exact ⟨carries_start hs b.length, headersSent_start hc b.length⟩
          · rintro - ⟨s', y⟩ - ⟨⟨hm, hf⟩, hsent⟩
            obtain ⟨hm', hf'⟩ := carries_push hf b
            exact ⟨⟨hm.trans hm', hf'⟩, hm'.headersSent_mono hsent⟩
        · rw [if_neg (by simp [hsink]), push, hsink]
          exact .refl s x

theorem failsSent_writeAll (h : s.Fits x) (hc : x.closed = false) (b : Bytes) :
    s.FailsSent (s.writeAll x b).2 := by
  induction s, x, b using writeAll.induct with
  | case1 s x =>
      rw [writeAll, if_pos rfl]
      exact .refl s x
  | case2 s x b hb e t hw =>
      have hfails := failsSent_write h hc b
      rw [hw] at hfails
      rw [writeAll, if_neg hb, hw]
      exact hfails
  | case3 s x b hb t hw =>
      have hfails := failsSent_write h hc b
      rw [hw] at hfails
      rw [writeAll, if_neg hb, hw]
      exact hfails
  | case4 s x b hb n s' y hw ih =>
      have hfails := failsSent_write h hc b
      have hcarries := carries_write h b
      rw [hw] at hfails hcarries
      obtain ⟨hm, hf⟩ := hcarries
      obtain ⟨hm', -⟩ := carries_writeAll hf (b.drop (n + 1))
      have hrest := ih hf (hm.frame.2.2.1.trans hc)
      rw [writeAll, if_neg hb, hw]
      intro hfailed
      obtain hfailed | hsent := hrest hfailed
      · exact (hfails hfailed).imp_right hm'.headersSent_mono
      · exact .inr hsent

theorem failsSent_flush (h : s.Fits x) : s.FailsSent (s.flush x).2 := by
  cases hs : x.headersSent with
  | true => exact (carries_flush h).failsSent hs
  | false =>
      unfold flush
      obtain hsink | hsink := h.sink_of_headersSent_eq_false hs
      · rw [hsink]
        exact .refl s x
      · rw [hsink]
        exact .refl s x

theorem failsSent_finish (h : s.Fits x) (hc : x.closed = false) : s.FailsSent (s.finish x).2 := by
  cases hs : x.headersSent with
  | true => exact (carries_finish h).failsSent hs
  | false =>
      obtain hsink | hsink := h.sink_of_headersSent_eq_false hs
      · -- nothing has been written: the head is sent now
        have hsent : (s.endSink x).2.headersSent = true := by
          unfold endSink
          rw [hsink]
          simp only
          rw [if_neg (Bool.eq_false_iff.1 hs), Attempt.snd_mapError]
          exact Exchange.headersSent_sendHeaders hc
        exact (carries_settle (s := { s with sink := .closed }) .refl
            (fits_of_closed rfl)).failsSent hsent
      · cases hfailed : s.failed with
        | true => exact fun _ => .inl hfailed
        | false =>
            unfold finish endSink
            rw [hsink, hfailed]
            exact fun h => .inl (hfailed ▸ h)

theorem failsSent_drop (h : s.Fits x) (hc : x.closed = false) : s.FailsSent (s.drop x) := by
  have hfinish := failsSent_finish h hc
  unfold drop
  split
  · exact .refl s x
  · rcases hr : s.finish x with ⟨e | ⟨⟩, s', y⟩
    · rw [hr] at hfinish
      exact hfinish
    · rw [hr] at hfinish
      exact hfinish

end ResponseStream

end HttpDispatch
