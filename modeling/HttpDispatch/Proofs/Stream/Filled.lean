import HttpDispatch.Proofs.Context.Commit
import HttpDispatch.Proofs.Exchange.Head
import HttpDispatch.Proofs.Stream.Moves

/-!
# What a response stream makes of a response that has no body

A head that announces no body stands alone: nothing follows it, and it has no length. A response
stream knows nothing of that. The head that it sends is followed by what is written, or it announces
that nothing is; an encoder may hold back what it has been given, but writes something when it is
finished. So whatever is done to a response stream on a connection that takes everything, the
response is filled in the end, or an encoder is about to fill it (`ResponseStream.Fills`).
-/

namespace HttpDispatch

namespace Writer

variable {w w' : Writer}

theorem Move.prefix_written (h : w.Move w') : w.written <+: w'.written := by
  cases h with
  | write b => exact ⟨_, (w.written_write b).symm⟩
  | writeAll b => exact ⟨_, (w.written_writeAll b).symm⟩
  | flush => exact (w.written_flush).symm ▸ List.prefix_rfl

theorem Moves.prefix_written (h : w.Moves w') : w.written <+: w'.written := by
  induction h with
  | refl => exact List.prefix_rfl
  | tail _ h ih => exact ih.trans h.prefix_written

end Writer

namespace Exchange

variable {x y z : Exchange} {n : Nat}

theorem Moves.prefix_written (h : x.Moves y) : x.out.written <+: y.out.written := by
  induction h with
  | refl => exact List.prefix_rfl
  | tail _ h ih =>
      cases h with
      | head hs hc =>
          obtain ⟨out, k, heq, -, hout⟩ := sendHeaders_cases hc hs
          rw [heq]
          exact ih.trans hout.prefix_written
      | body w _ _ hw => exact ih.trans hw.prefix_written
      | status => exact ih
      | pending => exact ih
      | inside => exact ih

/-- If a head that has to stand alone has been sent after `n` bytes, it does not: something follows
it, or it announces a length. -/
def Filled (n : Nat) (y : Exchange) : Prop :=
  ∀ head, y.sent = some head → head.status.IsBodiless →
    n + y.headBytes.length < y.out.written.length ∨ head.headers.getAll .contentLength ≠ []

theorem filled_of_unsent (h : y.headersSent = false) : y.Filled n := by
  intro head hhead
  rw [sent_eq_none h] at hhead
  cases hhead

/-- After the head has been sent, what is written comes behind it. -/
theorem Moves.headBytes_eq (h : y.Moves z) (hs : y.headersSent = true) :
    z.headBytes = y.headBytes := by
  obtain ⟨head, hhead⟩ := Option.isSome_iff_exists.1 hs
  rw [headBytes, headBytes, (h.of_sent hhead).1, hhead, h.frame.1]

theorem Filled.of_moves (h : y.Filled n) (hs : y.headersSent = true) (hm : y.Moves z) :
    z.Filled n := by
  obtain ⟨head, hhead⟩ := Option.isSome_iff_exists.1 hs
  intro head' hhead' hb
  obtain rfl : head = head' := Option.some.inj ((hm.of_sent hhead).1.symm.trans hhead')
  refine (h head hhead hb).imp_left fun hlt => ?_
  rw [hm.headBytes_eq hs]
  exact Nat.lt_of_lt_of_le hlt hm.prefix_written.length_le

def HasHead (n : Nat) (y : Exchange) : Prop :=
  y.headersSent = true ∧ n + y.headBytes.length ≤ y.out.written.length

theorem HasHead.of_moves (h : y.HasHead n) (hm : y.Moves z) : z.HasHead n := by
  refine ⟨hm.headersSent_mono h.1, ?_⟩
  rw [hm.headBytes_eq h.1]
  exact Nat.le_trans h.2 hm.prefix_written.length_le

theorem HasHead.filled_receive (h : y.HasHead n) {b : Bytes} (hb : b ≠ []) :
    ({ y with out := y.out.receive b } : Exchange).Filled n := by
  intro head _ _
  refine .inl ?_
  have hlength : 0 < b.length := List.length_pos_iff.2 hb
  have hroom := h.2
  rw [Writer.written_receive, List.length_append]
  change n + y.headBytes.length < _
  omega

/-- The exchange is open, its request asks for the whole response, and its writer, which takes
everything, has taken `n` bytes when the head is sent. -/
structure Flows (n : Nat) (y : Exchange) : Prop where
  closed : y.closed = false
  limit : y.out.limit = none
  isHead : y.isHead = false
  unwritten : y.headersSent = false → y.out.written.length = n

theorem Flows.of_moves (h : y.Flows n) (hm : y.Moves z) : z.Flows n := by
  obtain ⟨-, -, hclosed, hlimit⟩ := hm.frame
  refine ⟨hclosed.trans h.closed, hlimit.trans h.limit, hm.isHead_eq.trans h.isHead, fun hs => ?_⟩
  have hy : y.headersSent = false :=
    Bool.eq_false_iff.2 fun hy => Bool.eq_false_iff.1 hs (hm.headersSent_mono hy)
  rw [hm.out_eq_of_headersSent_eq_false hs]
  exact h.unwritten hy

theorem Flows.ready (h : y.Flows n) (hs : y.headersSent = false) : y.Ready :=
  ⟨h.closed, hs, h.limit⟩

theorem Flows.hasHead_sendHeaders (h : y.Flows n) (hs : y.headersSent = false) :
    ∃ z, y.sendHeaders = (.ok (), z) ∧ y.Moves z ∧ z.sent = some y.nextHead ∧ z.HasHead n := by
  obtain ⟨z, hsend, hsent, -, hwritten⟩ := (h.ready hs).sendHeaders
  have hm := moves_sendHeaders y
  rw [hsend] at hm
  refine ⟨z, hsend, hm, hsent, headersSent_of_sendHeaders hsend, ?_⟩
  rw [hwritten, List.length_append, h.unwritten hs, headBytes, hsent, hm.frame.1]

end Exchange

namespace ResponseStream

open Exchange

variable {s : ResponseStream} {x y : Exchange} {n : Nat} {coding : Coding} {history : List Feed}
    {α : Type}

/-- The response is filled, or an encoder has not passed on anything yet. -/
def Fills (n : Nat) (t : ResponseStream × Exchange) : Prop :=
  t.2.Filled n ∨ t.2.HasHead n ∧ ∃ coding history, t.1.sink = .coded coding history 0

theorem Fills.filled {t : ResponseStream × Exchange} (h : Fills n t) (hs : t.1.sink = .closed) :
    t.2.Filled n := by
  obtain h | ⟨-, coding, history, hcoded⟩ := h
  · exact h
  · rw [hs] at hcoded
    cases hcoded

/-!
## The encoder of a stream
-/

theorem coder_settle (s : ResponseStream) (r : Attempt Exchange IoError α) :
    (s.settle r).2.1.coder = s.coder := by
  obtain ⟨e | a, z⟩ := r <;> rfl

theorem coder_push (s : ResponseStream) (y : Exchange) (b : Bytes) :
    (s.push y b).2.1.coder = s.coder := by
  unfold push
  split
  · rfl
  · rfl
  · rfl
  · split <;> rfl
  · split <;> rfl

theorem coder_start (s : ResponseStream) (y : Exchange) (size : Nat) :
    (s.start y size).2.1.coder = s.coder := by
  unfold start
  dsimp only
  split <;> rfl

theorem coder_write (s : ResponseStream) (y : Exchange) (b : Bytes) :
    (s.write y b).2.1.coder = s.coder := by
  unfold write
  split
  · rfl
  · split
    · refine Attempt.andThen_preserves
        (P := fun t : ResponseStream × Exchange => t.1.coder = s.coder)
        (s.coder_start y b.length) ?_
      exact fun _ t _ h => (coder_push t.1 t.2 b).trans h
    · exact s.coder_push y b

theorem coder_writeAll (s : ResponseStream) (y : Exchange) (b : Bytes) :
    (s.writeAll y b).2.1.coder = s.coder := by
  induction s, y, b using writeAll.induct with
  | case1 s y => rw [writeAll, if_pos rfl]
  | case2 s y b hb e t hw =>
      have h := s.coder_write y b
      rw [hw] at h
      rw [writeAll, if_neg hb, hw]
      exact h
  | case3 s y b hb t hw =>
      have h := s.coder_write y b
      rw [hw] at h
      rw [writeAll, if_neg hb, hw]
      exact h
  | case4 s y b hb k s' z hw ih =>
      have h := s.coder_write y b
      rw [hw] at h
      rw [writeAll, if_neg hb, hw]
      exact ih.trans h

theorem coder_flush (s : ResponseStream) (y : Exchange) : (s.flush y).2.1.coder = s.coder := by
  unfold flush
  split
  · rfl
  · rfl
  · rfl
  · exact s.coder_settle _
  · dsimp only
    split
    · exact coder_settle _ _
    · rfl

theorem coder_finish (s : ResponseStream) (y : Exchange) : (s.finish y).2.1.coder = s.coder :=
  coder_settle _ _

/-!
## What its operations fill
-/

theorem Fills.of_moves (h : Fills n (s, y)) (hsent : y.headersSent = true) {z : Exchange}
    (hm : y.Moves z) : Fills n (s, z) :=
  h.imp (fun h => h.of_moves hsent hm) (fun h => ⟨h.1.of_moves hm, h.2⟩)

theorem deliver_eq (hy : y.Flows n) (coding : Coding) (history : List Feed) (passed : Nat) :
    s.deliver coding history passed y =
      (.ok (), { y with out := y.out.receive ((s.encoded coding history).drop passed) }) :=
  writeAll_of_limit_eq_none hy.limit _

theorem fills_deliver (h : y.HasHead n) (b : Bytes) (more : List Feed) :
    Fills n ({ s with sink := .coded coding more b.length },
      { y with out := y.out.receive b }) := by
  by_cases hb : b = []
  · subst hb
    have hnone : y.out.receive [] = y.out :=
      congrArg (fun b => { y.out with written := b }) (List.append_nil _)
    rw [hnone]
    exact .inr ⟨h, coding, more, rfl⟩
  · exact .inl (h.filled_receive hb)

theorem fills_push_of_coded (hy : y.Flows n) (h : y.HasHead n)
    (hs : s.sink = .coded coding history 0) (b : Bytes) : Fills n (s.push y b).2 := by
  unfold push
  rw [hs]
  dsimp only
  rw [deliver_eq hy]
  exact fills_deliver (s := { s with written := s.written + b.length }) h
    (s.encoded coding history) _

theorem fills_write_of_pending (hy : y.Flows n) (hf : s.Fits y) (hs : s.sink = .pending) (b : Bytes)
    (hb : b ≠ []) : Fills n (s.write y b).2 := by
  have hunsent := hf.headersSent_eq_false hs
  unfold write
  rw [if_neg hb, if_pos hs]
  unfold start
  dsimp only
  generalize s.settings.choose y.request.headers y.pending b.length = chosen
  have hm := moves_withPending hunsent (·.withCoding s.settings chosen)
  have hy' := hy.of_moves hm
  obtain ⟨z, hsend, hm', -, hhead⟩ := hy'.hasHead_sendHeaders hunsent
  have hz := hy'.of_moves hm'
  rw [hsend]
  simp only [Attempt.andThen_ok]
  unfold openSink
  rw [if_neg (Bool.eq_false_iff.1 hz.isHead)]
  cases chosen with
  | some c => exact fills_push_of_coded hz hhead rfl b
  | none =>
      unfold push
      dsimp only
      rw [write_of_limit_eq_none hz.limit]
      exact .inl (hhead.filled_receive hb)

/-- A stream that has been opened and is not in its first state any more has had the head sent, or
is closed. -/
theorem Fits.headersSent_or_closed (hf : s.Fits y) (hs : s.sink ≠ .pending) :
    y.headersSent = true ∨ s.sink = .closed := by
  unfold Fits at hf
  cases hsink : s.sink with
  | pending => exact absurd hsink hs
  | plain =>
      rw [hsink] at hf
      exact .inl hf.1
  | coded coding history passed =>
      rw [hsink] at hf
      exact .inl hf.1
  | discard =>
      rw [hsink] at hf
      exact .inl hf.1
  | closed => exact .inr rfl

theorem fills_write (hy : y.Flows n) (hf : s.Fits y) (h : Fills n (s, y)) (b : Bytes) :
    Fills n (s.write y b).2 := by
  by_cases hb : b = []
  · rw [write, if_pos hb]
    exact h
  by_cases hs : s.sink = .pending
  · exact fills_write_of_pending hy hf hs b hb
  rw [write, if_neg hb, if_neg hs]
  obtain h | ⟨hhead, coding, history, hcoded⟩ := h
  · obtain hsent | hclosed := hf.headersSent_or_closed hs
    · exact .inl (h.of_moves hsent (carries_push hf b).1)
    · unfold push
      rw [hclosed]
      exact .inl h
  · exact fills_push_of_coded hy hhead hcoded b

theorem fills_writeAll (hy : y.Flows n) (hf : s.Fits y) (h : Fills n (s, y)) (b : Bytes) :
    Fills n (s.writeAll y b).2 := by
  induction s, y, b using writeAll.induct with
  | case1 s y =>
      rw [writeAll, if_pos rfl]
      exact h
  | case2 s y b hb e t hw =>
      have hwrite := fills_write hy hf h b
      rw [hw] at hwrite
      rw [writeAll, if_neg hb, hw]
      exact hwrite
  | case3 s y b hb t hw =>
      have hwrite := fills_write hy hf h b
      rw [hw] at hwrite
      rw [writeAll, if_neg hb, hw]
      exact hwrite
  | case4 s y b hb k s' z hw ih =>
      have hwrite := fills_write hy hf h b
      have hcarries := carries_write hf b
      rw [hw] at hwrite hcarries
      rw [writeAll, if_neg hb, hw]
      exact ih (hy.of_moves hcarries.1) hcarries.2 hwrite

theorem filled_fail (hp : s.coder.IsProductive) (hy : y.Flows n) (h : Fills n (s, y))
    (hf : s.Fits y) (hsent : y.headersSent = true) (e : IoError) : (s.fail y e).2.Filled n := by
  obtain h | ⟨hhead, coding, history, hcoded⟩ := h
  · exact h.of_moves hsent (carries_fail hf e).1
  · have habandon : ∀ z : Exchange, z.Flows n → z.HasHead n → (s.abandon z).Filled n := by
      intro z hz hhead
      unfold abandon
      rw [hcoded]
      dsimp only
      rw [deliver_eq hz]
      exact hhead.filled_receive (hp coding s.settings.level history)
    unfold fail
    dsimp only
    split
    · exact habandon y hy hhead
    · have hm := y.moves_report (.streamFailed e s.written)
      exact habandon _ (hy.of_moves hm) (hhead.of_moves hm)

/-- What is passed on makes no difference, and a failure of the writer does not keep an encoder from
being finished. -/
theorem fills_settle_flush (hp : s.coder.IsProductive) (hy : y.Flows n) (h : Fills n (s, y))
    (hf : s.Fits y) (hsent : y.headersSent = true) : Fills n (s.settle y.flush).2 := by
  have hm := moves_flush hsent hy.isHead
  generalize y.flush = r at hm ⊢
  obtain ⟨e | ⟨⟩, z⟩ := r
  · exact .inl (filled_fail hp (hy.of_moves hm) (h.of_moves hsent hm) (hf.of_moves hm hsent)
      (hm.headersSent_mono hsent) e)
  · exact h.of_moves hsent hm

theorem fills_flush (hp : s.coder.IsProductive) (hy : y.Flows n) (hf : s.Fits y)
    (h : Fills n (s, y)) : Fills n (s.flush y).2 := by
  cases hsink : s.sink with
  | pending =>
      rw [flush, hsink]
      exact h
  | discard =>
      rw [flush, hsink]
      exact h
  | closed =>
      rw [flush, hsink]
      exact h
  | plain =>
      rw [flush, hsink]
      exact fills_settle_flush hp hy h hf (hf.of_plain hsink).1
  | coded coding history passed =>
      obtain hfilled | ⟨hhead, coding', history', hcoded⟩ := h
      · exact .inl (hfilled.of_moves (hf.of_coded hsink).1 (carries_flush hf).1)
      · rw [hsink] at hcoded
        cases hcoded
        have hm := moves_deliver (s := s) hhead.1 hy.isHead coding (history ++ [.flush]) 0
        rw [deliver_eq hy, List.drop_zero] at hm
        unfold flush
        rw [hsink]
        dsimp only
        rw [deliver_eq hy, List.drop_zero]
        dsimp only
        exact fills_settle_flush hp (hy.of_moves hm) (fills_deliver hhead _ _)
          (fits_coded (hm.headersSent_mono hhead.1) (hm.isHead_eq.trans hy.isHead) _ _ _)
            (hm.headersSent_mono hhead.1)

/-- The end of a stream that nothing was written to announces that. -/
theorem filled_finish_of_pending (hy : y.Flows n) (hf : s.Fits y) (hs : s.sink = .pending) :
    (s.finish y).2.2.Filled n := by
  have hunsent := hf.headersSent_eq_false hs
  have hm := moves_withPending hunsent (·.insert .contentLength (.ofNat 0))
  obtain ⟨z, hsend, -, hsent, -⟩ := (hy.of_moves hm).hasHead_sendHeaders hunsent
  unfold finish endSink
  rw [hs]
  dsimp only
  rw [if_neg (Bool.eq_false_iff.1 hunsent), hsend]
  intro head hhead _
  rw [show z.sent = some head from hhead] at hsent
  cases hsent
  refine .inr ?_
  rw [getAll_nextHead (by decide)]
  simp [withPending]

theorem filled_finish (hp : s.coder.IsProductive) (hy : y.Flows n) (hf : s.Fits y)
    (h : Fills n (s, y)) : (s.finish y).2.2.Filled n := by
  by_cases hs : s.sink = .pending
  · exact filled_finish_of_pending hy hf hs
  obtain hfilled | ⟨hhead, coding, history, hcoded⟩ := h
  · obtain hsent | hclosed := hf.headersSent_or_closed hs
    · exact hfilled.of_moves hsent (carries_finish hf).1
    · unfold finish endSink
      rw [hclosed]
      cases hfailed : s.failed with
      | true => simpa [settle, fail, abandon, hfailed] using hfilled
      | false => exact hfilled
  · have hdelivered := hhead.filled_receive (hp coding s.settings.level history)
    have hm := moves_deliver (s := s) hhead.1 hy.isHead coding (history ++ [.finish]) 0
    rw [deliver_eq hy, List.drop_zero] at hm
    unfold finish endSink
    rw [hcoded]
    dsimp only
    rw [deliver_eq hy, List.drop_zero, Attempt.andThen_ok]
    have hsent := hm.headersSent_mono hhead.1
    have hm' := moves_flush hsent (hm.isHead_eq.trans hy.isHead)
    exact hdelivered.of_moves hsent (carries_settle hm' (fits_of_closed rfl)).1

/-- Once a stream has been let go, the response is filled. -/
theorem filled_drop (hp : s.coder.IsProductive) (hy : y.Flows n) (hf : s.Fits y)
    (h : Fills n (s, y)) : (s.drop y).2.Filled n := by
  have hfinish := filled_finish hp hy hf h
  unfold drop
  split
  · next hclosed => exact h.filled (by simpa [isClosed] using hclosed)
  · generalize s.finish y = r at hfinish ⊢
    obtain ⟨e | ⟨⟩, s', z⟩ := r
    · exact hfinish
    · exact hfinish

end ResponseStream

end HttpDispatch
