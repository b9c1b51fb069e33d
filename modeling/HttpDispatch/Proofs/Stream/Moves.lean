import HttpDispatch.Proofs.Exchange.Moves
import HttpDispatch.Stream.ResponseStream

/-!
# Response streams move their exchange

A response stream and its exchange belong together: the head has been sent exactly if the stream has
left its first state, and a stream that writes is not the answer to a request for the head only
(`ResponseStream.Fits`). Every operation on a stream is a sequence of moves of the exchange, and
leaves a stream that fits (`ResponseStream.Carries`).
-/

namespace HttpDispatch.ResponseStream

variable {α : Type} {s : ResponseStream} {x y : Exchange}

def Fits (s : ResponseStream) (x : Exchange) : Prop :=
  match s.sink with
  | .pending => x.headersSent = false
  | .plain | .coded _ _ _ => x.headersSent = true ∧ x.isHead = false
  | .discard => x.headersSent = true ∧ x.isHead = true
  | .closed => True

def Carries (x : Exchange) (t : ResponseStream × Exchange) : Prop := x.Moves t.2 ∧ t.1.Fits t.2

theorem Fits.congr (h : s.Fits x) (hs : y.headersSent = x.headersSent) (hh : y.isHead = x.isHead) :
    s.Fits y := by
  unfold Fits at h ⊢
  rw [hs, hh]
  exact h

theorem Fits.of_moves (h : s.Fits x) (hm : x.Moves y) (hs : x.headersSent = true) : s.Fits y :=
  h.congr ((hm.headersSent_mono hs).trans hs.symm) hm.isHead_eq

theorem fits_of_closed (h : s.sink = .closed) : s.Fits x := by
  rw [Fits, h]
  trivial

theorem Fits.headersSent_eq_false (h : s.Fits x) (hs : s.sink = .pending) :
    x.headersSent = false := by
  rw [Fits, hs] at h
  exact h

theorem Fits.of_plain (h : s.Fits x) (hs : s.sink = .plain) :
    x.headersSent = true ∧ x.isHead = false := by
  rw [Fits, hs] at h
  exact h

theorem Fits.of_coded {coding : Coding} {history : List Feed} {passed : Nat} (h : s.Fits x)
    (hs : s.sink = .coded coding history passed) : x.headersSent = true ∧ x.isHead = false := by
  rw [Fits, hs] at h
  exact h

theorem fits_coded (hs : x.headersSent = true) (hh : x.isHead = false) (coding : Coding)
    (history : List Feed) (passed : Nat) :
    ({ s with sink := .coded coding history passed } : ResponseStream).Fits x :=
  ⟨hs, hh⟩

theorem moves_deliver (hs : x.headersSent = true) (hh : x.isHead = false) (coding : Coding)
    (history : List Feed) (passed : Nat) : x.Moves (s.deliver coding history passed x).2 :=
  Exchange.moves_writeAll hs hh _

theorem moves_abandon (h : s.Fits x) : x.Moves (s.abandon x) := by
  unfold abandon
  split
  · next hs =>
    obtain ⟨hsent, hhead⟩ := h.of_coded hs
    exact moves_deliver hsent hhead _ _ _
  · exact .refl

theorem carries_fail (h : s.Fits x) (e : IoError) : Carries x (s.fail x e) := by
  refine ⟨?_, fits_of_closed rfl⟩
  unfold fail
  simp only
  split
  · exact moves_abandon h
  · exact (Exchange.moves_report x _).trans (moves_abandon (h.congr rfl rfl))

theorem carries_settle {r : Attempt Exchange IoError α} (hm : x.Moves r.2) (h : s.Fits r.2) :
    Carries x (s.settle r).2 := by
  obtain ⟨e | a, y⟩ := r
  · obtain ⟨hm', hf⟩ := carries_fail h e
    exact ⟨hm.trans hm', hf⟩
  · exact ⟨hm, h⟩

theorem fits_openSink (s : ResponseStream) (hs : x.headersSent = true) (coding : Option Coding) :
    ({ s with sink := openSink x coding } : ResponseStream).Fits x := by
  unfold openSink
  split
  · next hh => exact ⟨hs, hh⟩
  · next hh =>
    cases coding with
    | none => exact ⟨hs, Bool.eq_false_iff.2 hh⟩
    | some c => exact ⟨hs, Bool.eq_false_iff.2 hh⟩

theorem carries_start (hs : x.headersSent = false) (size : Nat) :
    Carries x (s.start x size).2 := by
  unfold start
  simp only
  generalize s.settings.choose x.request.headers x.pending size = coding
  have hp := Exchange.moves_withPending hs (·.withCoding s.settings coding)
  have hh := Exchange.moves_sendHeaders (x.withPending (·.withCoding s.settings coding))
  rcases hsend : (x.withPending (·.withCoding s.settings coding)).sendHeaders with ⟨e | ⟨⟩, y⟩
  · rw [hsend] at hh
    exact ⟨hp.trans hh, fits_of_closed rfl⟩
  · rw [hsend] at hh
    exact ⟨hp.trans hh,
      fits_openSink { s with coding } (Exchange.headersSent_of_sendHeaders hsend) coding⟩

theorem carries_push (h : s.Fits x) (b : Bytes) : Carries x (s.push x b).2 := by
  unfold push
  split
  · exact ⟨.refl, h⟩
  · exact ⟨.refl, h⟩
  · exact ⟨.refl, h⟩
  · next hs =>
    obtain ⟨hsent, hhead⟩ := h.of_plain hs
    have hm := Exchange.moves_write hsent hhead b
    rcases hw : x.write b with ⟨e | n, y⟩
    · rw [hw] at hm
      obtain ⟨hm', hf⟩ := carries_fail (h.of_moves hm hsent) e
      exact ⟨hm.trans hm', hf⟩
    · rw [hw] at hm
      exact ⟨hm, h.of_moves hm hsent⟩
  · next coding history passed hs =>
    obtain ⟨hsent, hhead⟩ := h.of_coded hs
    have hm := moves_deliver (s := s) hsent hhead coding history passed
    rcases hd : s.deliver coding history passed x with ⟨e | ⟨⟩, y⟩
    · rw [hd] at hm
      simp only
      obtain ⟨hm', hf⟩ := carries_fail (s := { s with sink := _ })
        (fits_coded (hm.headersSent_mono hsent) (hm.isHead_eq.trans hhead) coding history
          (passed + (y.out.written.length - x.out.written.length))) e
      exact ⟨hm.trans hm', hf⟩
    · rw [hd] at hm
      exact ⟨hm, hm.headersSent_mono hsent, hm.isHead_eq.trans hhead⟩

theorem carries_write (h : s.Fits x) (b : Bytes) : Carries x (s.write x b).2 := by
  unfold write
  split
  · exact ⟨.refl, h⟩
  · split
    · next hs =>
      refine Attempt.andThen_preserves (P := Carries x)
        (carries_start (h.headersSent_eq_false hs) b.length) ?_
      rintro - ⟨s', y⟩ - ⟨hm, hf⟩
      obtain ⟨hm', hf'⟩ := carries_push hf b
      exact ⟨hm.trans hm', hf'⟩
    · exact carries_push h b

theorem carries_writeAll (h : s.Fits x) (b : Bytes) : Carries x (s.writeAll x b).2 := by
  induction s, x, b using writeAll.induct with
  | case1 s x =>
      rw [writeAll, if_pos rfl]
      exact ⟨.refl, h⟩
  | case2 s x b hb e t hw =>
      have hc := carries_write h b
      rw [hw] at hc
      rw [writeAll, if_neg hb, hw]
      exact hc
  | case3 s x b hb t hw =>
      have hc := carries_write h b
      rw [hw] at hc
      rw [writeAll, if_neg hb, hw]
      exact hc
  | case4 s x b hb n s' y hw ih =>
      have hc := carries_write h b
      rw [hw] at hc
      obtain ⟨hm, hf⟩ := hc
      obtain ⟨hm', hf'⟩ := ih hf
      rw [writeAll, if_neg hb, hw]
      exact ⟨hm.trans hm', hf'⟩

theorem carries_flush (h : s.Fits x) : Carries x (s.flush x).2 := by
  unfold flush
  split
  · exact ⟨.refl, h⟩
  · exact ⟨.refl, h⟩
  · exact ⟨.refl, h⟩
  · next hs =>
    obtain ⟨hsent, hhead⟩ := h.of_plain hs
    have hm := Exchange.moves_flush hsent hhead
    exact carries_settle hm (h.of_moves hm hsent)
  · next coding history passed hs =>
    obtain ⟨hsent, hhead⟩ := h.of_coded hs
    simp only
    have hm := moves_deliver (s := s) hsent hhead coding (history ++ [.flush]) passed
    rcases hd : s.deliver coding (history ++ [.flush]) passed x with ⟨e | ⟨⟩, y⟩
    · rw [hd] at hm
      simp only [hd]
      obtain ⟨hm', hf⟩ := carries_fail (s := { s with sink := _ })
        (fits_coded (hm.headersSent_mono hsent) (hm.isHead_eq.trans hhead) coding
          (history ++ [.flush]) (passed + (y.out.written.length - x.out.written.length))) e
      exact ⟨hm.trans hm', hf⟩
    · rw [hd] at hm
      simp only [hd]
      have hsent' := hm.headersSent_mono hsent
      have hhead' := hm.isHead_eq.trans hhead
      have hm' := Exchange.moves_flush hsent' hhead'
      obtain ⟨hm'', hf⟩ := carries_settle (s := { s with sink := _ }) hm'
        (fits_coded (hm'.headersSent_mono hsent') (hm'.isHead_eq.trans hhead') coding
          (history ++ [.flush]) (s.encoded coding (history ++ [.flush])).length)
      exact ⟨hm.trans hm'', hf⟩

theorem moves_endSink (h : s.Fits x) : x.Moves (s.endSink x).2 := by
  unfold endSink
  split
  · next hs =>
    have hsent := h.headersSent_eq_false hs
    rw [if_neg (Bool.eq_false_iff.1 hsent), Attempt.snd_mapError]
    exact (Exchange.moves_withPending hsent _).trans (Exchange.moves_sendHeaders _)
  · exact .refl
  · next hs =>
    obtain ⟨hsent, hhead⟩ := h.of_plain hs
    exact Exchange.moves_flush hsent hhead
  · next coding history passed hs =>
    obtain ⟨hsent, hhead⟩ := h.of_coded hs
    refine Attempt.andThen_preserves (P := x.Moves) (moves_deliver hsent hhead _ _ _) ?_
    intro _ y _ hm
    exact hm.trans
      (Exchange.moves_flush (hm.headersSent_mono hsent) (hm.isHead_eq.trans hhead))
  · exact .refl

theorem carries_finish (h : s.Fits x) : Carries x (s.finish x).2 :=
  carries_settle (moves_endSink h) (fits_of_closed rfl)

theorem moves_drop (h : s.Fits x) : x.Moves (s.drop x).2 := by
  unfold drop
  split
  · exact .refl
  · obtain ⟨hm, -⟩ := carries_finish h
    rcases hr : s.finish x with ⟨e | ⟨⟩, s', y⟩ <;> rw [hr] at hm
    · exact hm.trans (Exchange.moves_report y _)
    · exact hm

end HttpDispatch.ResponseStream
