import HttpDispatch.Proofs.Stream.Variants

/-!
# Streams that stay closed

On whatever exchange a response stream was begun, open or closed, its head sent or not: a stream
that has failed is closed, and nothing that is done to it later changes it or reaches its exchange.
Before that, the head is sent once at most, and the coding is decided once
(`ResponseStream.steady_stepAll`).

All of this follows from what lasts from one state of stream and exchange to the next
(`ResponseStream.Lasts`), which is shown of each operation by itself. Unlike `Exchange.Moves`, it
asks nothing of the state that the exchange was in.
-/

namespace HttpDispatch

namespace Exchange

variable {α : Type} {x y z : Exchange}

/-- From `x` to `y` the head is sent once at most, and not at all if it has been sent already. -/
structure SendsOnce (x y : Exchange) : Prop where
  sent : x.headersSent = true → y.sent = x.sent ∧ y.sends = x.sends
  unsent : y.headersSent = false → y.sends = x.sends
  sends_le : y.sends ≤ x.sends + 1

theorem SendsOnce.of_eq (hsent : y.sent = x.sent) (hsends : y.sends = x.sends) : x.SendsOnce y :=
  ⟨fun _ => ⟨hsent, hsends⟩, fun _ => hsends, by omega⟩

theorem SendsOnce.refl (x : Exchange) : x.SendsOnce x := .of_eq rfl rfl

theorem SendsOnce.headersSent (h : x.SendsOnce y) (hx : x.headersSent = true) :
    y.headersSent = true := by
  rw [Exchange.headersSent, (h.sent hx).1]
  exact hx

theorem SendsOnce.trans (h : x.SendsOnce y) (h' : y.SendsOnce z) : x.SendsOnce z := by
  refine ⟨fun hx => ?_, fun hz => ?_, ?_⟩
  · obtain ⟨hsent, hsends⟩ := h.sent hx
    obtain ⟨hsent', hsends'⟩ := h'.sent (h.headersSent hx)
    exact ⟨hsent'.trans hsent, hsends'.trans hsends⟩
  · have hy : y.headersSent = false := by
      rw [Bool.eq_false_iff]
      intro hy
      rw [h'.headersSent hy] at hz
      cases hz
    exact (h'.unsent hz).trans (h.unsent hy)
  · cases hy : y.headersSent with
    | true =>
        rw [(h'.sent hy).2]
        exact h.sends_le
    | false =>
        rw [← h.unsent hy]
        exact h'.sends_le

theorem sendsOnce_report (x : Exchange) (e : LogEvent) : x.SendsOnce (x.report e) := .of_eq rfl rfl

theorem sendsOnce_withPending (x : Exchange) (f : Headers → Headers) :
    x.SendsOnce (x.withPending f) :=
  .of_eq rfl rfl

theorem sendsOnce_onWriter (x : Exchange) (f : Writer → Attempt Writer IoError α) :
    x.SendsOnce (x.onWriter f).2 :=
  .of_eq rfl rfl

theorem sendsOnce_sendHeaders (x : Exchange) : x.SendsOnce x.sendHeaders.2 := by
  cases hc : x.closed with
  | true =>
      rw [sendHeaders_of_closed hc]
      exact .refl x
  | false =>
      cases hs : x.headersSent with
      | true =>
          rw [sendHeaders_of_headersSent hc hs]
          exact .refl x
      | false =>
          obtain ⟨out, n, heq, hn, -⟩ := sendHeaders_cases hc hs
          rw [heq]
          refine ⟨fun h => ?_, fun h => (nomatch h), hn⟩
          rw [hs] at h
          cases h

end Exchange

namespace ResponseStream

open Exchange

variable {α : Type} {s s' : ResponseStream} {x y : Exchange} {t u v : ResponseStream × Exchange}

def Sound (s : ResponseStream) : Prop := s.failed = true → s.sink = .closed

structure Lasts (t u : ResponseStream × Exchange) : Prop where
  sendsOnce : t.2.SendsOnce u.2
  sound : t.1.Sound → u.1.Sound
  stopped : t.1.failed = true → t.1.sink = .closed → u.1 = t.1
  begun : t.1.sink ≠ .pending → u.1.sink ≠ .pending ∧ u.1.coding = t.1.coding

theorem Lasts.refl (t : ResponseStream × Exchange) : Lasts t t :=
  ⟨.refl t.2, id, fun _ _ => rfl, fun h => ⟨h, rfl⟩⟩

theorem Lasts.trans (h : Lasts t u) (h' : Lasts u v) : Lasts t v where
  sendsOnce := h.sendsOnce.trans h'.sendsOnce
  sound hs := h'.sound (h.sound hs)
  stopped hf hs := by
    have hu := h.stopped hf hs
    exact (h'.stopped (hu ▸ hf) (hu ▸ hs)).trans hu
  begun hs := by
    obtain ⟨hu, hcoding⟩ := h.begun hs
    obtain ⟨hv, hcoding'⟩ := h'.begun hu
    exact ⟨hv, hcoding'.trans hcoding⟩

theorem lasts_exchange (s : ResponseStream) (h : x.SendsOnce y) : Lasts (s, x) (s, y) :=
  ⟨h, id, fun _ _ => rfl, fun h => ⟨h, rfl⟩⟩

theorem lasts_of_ne_closed (hs : s.sink ≠ .closed) (hx : x.SendsOnce y)
    (hfailed : s'.failed = s.failed) (hsink : s'.sink ≠ .pending) (hcoding : s'.coding = s.coding) :
    Lasts (s, x) (s', y) where
  sendsOnce := hx
  sound h hf := absurd (h (hfailed ▸ hf)) hs
  stopped _ h := absurd h hs
  begun _ := ⟨hsink, hcoding⟩

/-!
## One operation
-/

theorem sendsOnce_abandon (s : ResponseStream) (x : Exchange) : x.SendsOnce (s.abandon x) := by
  unfold abandon
  split <;> exact .of_eq rfl rfl

theorem lasts_fail (s : ResponseStream) (x : Exchange) (e : IoError) :
    Lasts (s, x) (s.fail x e) where
  sendsOnce := by
    unfold fail
    dsimp only
    split
    · exact s.sendsOnce_abandon x
    · exact (sendsOnce_report x _).trans (s.sendsOnce_abandon _)
  sound _ _ := rfl
  stopped hf hs := by
    obtain ⟨coder, settings, sink, coding, failed, written⟩ := s
    cases hf
    cases hs
    rfl
  begun _ := ⟨Sink.noConfusion, rfl⟩

theorem lasts_settle (s : ResponseStream) {r : Attempt Exchange IoError α} (h : x.SendsOnce r.2) :
    Lasts (s, x) (s.settle r).2 := by
  obtain ⟨e | a, y⟩ := r
  · exact (lasts_exchange s h).trans (s.lasts_fail y e)
  · exact lasts_exchange s h

theorem openSink_ne (x : Exchange) (coding : Option Coding) : openSink x coding ≠ .pending := by
  unfold openSink
  split
  · exact Sink.noConfusion
  · cases coding <;> exact Sink.noConfusion

theorem lasts_start (hs : s.sink = .pending) (x : Exchange) (size : Nat) :
    Lasts (s, x) (s.start x size).2 ∧ (s.start x size).2.1.sink ≠ .pending := by
  have hopen : s.sink ≠ .closed := by
    rw [hs]
    exact Sink.noConfusion
  unfold start
  dsimp only
  generalize s.settings.choose x.request.headers x.pending size = coding
  have hsends : x.SendsOnce (x.withPending (·.withCoding s.settings coding)).sendHeaders.2 :=
    (sendsOnce_withPending x _).trans (sendsOnce_sendHeaders _)
  generalize (x.withPending (·.withCoding s.settings coding)).sendHeaders = r at hsends
  obtain ⟨e | ⟨⟩, y⟩ := r
  · exact ⟨⟨hsends, fun _ _ => rfl, fun _ h => absurd h hopen, fun h => absurd hs h⟩,
      Sink.noConfusion⟩
  · exact ⟨⟨hsends, fun h hf => absurd (h hf) hopen, fun _ h => absurd h hopen,
      fun h => absurd hs h⟩, openSink_ne y coding⟩

theorem lasts_push (s : ResponseStream) (x : Exchange) (b : Bytes) :
    Lasts (s, x) (s.push x b).2 := by
  unfold push
  split
  · exact .refl _
  · exact .refl _
  · next hs => exact lasts_of_ne_closed (by simp [hs]) (.refl x) rfl (by simp [hs]) rfl
  · next hs =>
    have hwrite : x.SendsOnce (x.write b).2 := x.sendsOnce_onWriter _
    generalize x.write b = r at hwrite
    obtain ⟨e | n, y⟩ := r
    · exact (lasts_exchange s hwrite).trans (s.lasts_fail y e)
    · exact lasts_of_ne_closed (by simp [hs]) hwrite rfl (by simp [hs]) rfl
  · next coding history passed hs =>
    have hopen : s.sink ≠ .closed := by simp [hs]
    have hdeliver : x.SendsOnce (s.deliver coding history passed x).2 := x.sendsOnce_onWriter _
    generalize s.deliver coding history passed x = r at hdeliver
    obtain ⟨e | ⟨⟩, y⟩ := r
    · refine Lasts.trans ?_ (lasts_fail _ y e)
      exact lasts_of_ne_closed hopen hdeliver rfl Sink.noConfusion rfl
    · exact lasts_of_ne_closed hopen hdeliver rfl Sink.noConfusion rfl

theorem lasts_write (s : ResponseStream) (x : Exchange) (b : Bytes) :
    Lasts (s, x) (s.write x b).2 ∧ (b ≠ [] → (s.write x b).2.1.sink ≠ .pending) := by
  unfold write
  split
  · next hb => exact ⟨.refl _, fun h => absurd hb h⟩
  · split
    · next hs =>
      refine Attempt.andThen_preserves
        (P := fun t => Lasts (s, x) t ∧ (b ≠ [] → t.1.sink ≠ .pending)) ?_ ?_
      · obtain ⟨hl, hne⟩ := lasts_start hs x b.length
        exact ⟨hl, fun _ => hne⟩
      · rintro - ⟨s', y⟩ - ⟨hl, hne⟩
        have hpush := s'.lasts_push y b
        exact ⟨hl.trans hpush, fun hb => (hpush.begun (hne hb)).1⟩
    · next hs =>
      have hpush := s.lasts_push x b
      exact ⟨hpush, fun _ => (hpush.begun hs).1⟩

theorem lasts_writeAll (s : ResponseStream) (x : Exchange) (b : Bytes) :
    Lasts (s, x) (s.writeAll x b).2 ∧ (b ≠ [] → (s.writeAll x b).2.1.sink ≠ .pending) := by
  induction s, x, b using writeAll.induct with
  | case1 s x =>
      rw [writeAll, if_pos rfl]
      exact ⟨.refl _, fun h => absurd rfl h⟩
  | case2 s x b hb e t hw =>
      have h := s.lasts_write x b
      rw [hw] at h
      rw [writeAll, if_neg hb, hw]
      exact h
  | case3 s x b hb t hw =>
      have h := s.lasts_write x b
      rw [hw] at h
      rw [writeAll, if_neg hb, hw]
      exact h
  | case4 s x b hb n s' y hw ih =>
      obtain ⟨hl, hne⟩ := s.lasts_write x b
      rw [hw] at hl hne
      rw [writeAll, if_neg hb, hw]
      exact ⟨hl.trans ih.1, fun hb => (ih.1.begun (hne hb)).1⟩

theorem lasts_flush (s : ResponseStream) (x : Exchange) : Lasts (s, x) (s.flush x).2 := by
  unfold flush
  split
  · exact .refl _
  · exact .refl _
  · exact .refl _
  · exact s.lasts_settle (sendsOnce_onWriter x _)
  · next coding history passed hs =>
    have hopen : s.sink ≠ .closed := by simp [hs]
    have hdeliver : x.SendsOnce (s.deliver coding (history ++ [.flush]) passed x).2 :=
      x.sendsOnce_onWriter _
    dsimp only
    generalize s.deliver coding (history ++ [.flush]) passed x = r at hdeliver
    obtain ⟨e | ⟨⟩, y⟩ := r
    · refine Lasts.trans ?_ (lasts_fail _ y e)
      exact lasts_of_ne_closed hopen hdeliver rfl Sink.noConfusion rfl
    · refine Lasts.trans ?_ (lasts_settle _ (sendsOnce_onWriter y _))
      exact lasts_of_ne_closed hopen hdeliver rfl Sink.noConfusion rfl

theorem sendsOnce_endSink (s : ResponseStream) (x : Exchange) : x.SendsOnce (s.endSink x).2 := by
  unfold endSink
  split
  · split
    · exact .refl x
    · rw [Attempt.snd_mapError]
      exact (sendsOnce_withPending x _).trans (sendsOnce_sendHeaders _)
  · exact .refl x
  · exact x.sendsOnce_onWriter _
  · refine Attempt.andThen_preserves (P := x.SendsOnce) (x.sendsOnce_onWriter _) fun _ y _ h => ?_
    exact h.trans (y.sendsOnce_onWriter _)
  · exact .refl x

theorem lasts_finish (s : ResponseStream) (x : Exchange) : Lasts (s, x) (s.finish x).2 := by
  have hclose : Lasts (s, x) ({ s with sink := .closed }, x) := by
    refine ⟨.refl x, fun _ _ => rfl, fun _ hs => ?_, fun _ => ⟨Sink.noConfusion, rfl⟩⟩
    obtain ⟨coder, settings, sink, coding, failed, written⟩ := s
    cases hs
    rfl
  exact hclose.trans (lasts_settle _ (s.sendsOnce_endSink x))

theorem lasts_drop (s : ResponseStream) (x : Exchange) : Lasts (s, x) (s.drop x) := by
  have h := s.lasts_finish x
  unfold drop
  split
  · exact .refl _
  · generalize s.finish x = r at h
    obtain ⟨e | ⟨⟩, s', y⟩ := r
    · exact h.trans (lasts_exchange s' (y.sendsOnce_report _))
    · exact h

/-!
## Everything that is done
-/

inductive Step where
  | act (a : Action)
  /-- From now on the peer takes another number of bytes, and flushing fails or does not. -/
  | turn (limit : Option Nat) (flushFailure : Option IoError)

def Step.data : Step → Bytes
  | act (.write b) | act (.writeAll b) => b
  | act .flush | act .finish | act .drop | turn _ _ => []

def step (t : ResponseStream × Exchange) : Step → ResponseStream × Exchange
  | .act a => t.1.act t.2 a
  | .turn limit flushFailure => (t.1, { t.2 with out := { t.2.out with limit, flushFailure } })

def stepAll (t : ResponseStream × Exchange) (as : List Step) : ResponseStream × Exchange :=
  as.foldl step t

theorem lasts_step (t : ResponseStream × Exchange) (a : Step) :
    Lasts t (step t a) ∧ (a.data ≠ [] → (step t a).1.sink ≠ .pending) := by
  obtain ⟨s, x⟩ := t
  rcases a with (b | b | - | - | -) | ⟨limit, flushFailure⟩
  · exact s.lasts_write x b
  · exact s.lasts_writeAll x b
  · exact ⟨s.lasts_flush x, fun h => absurd rfl h⟩
  · exact ⟨s.lasts_finish x, fun h => absurd rfl h⟩
  · exact ⟨s.lasts_drop x, fun h => absurd rfl h⟩
  · exact ⟨lasts_exchange s (.of_eq rfl rfl), fun h => absurd rfl h⟩

theorem lasts_stepAll (t : ResponseStream × Exchange) (as : List Step) :
    Lasts t (stepAll t as) ∧ ((∃ a ∈ as, a.data ≠ []) → (stepAll t as).1.sink ≠ .pending) := by
  induction as generalizing t with
  | nil => exact ⟨.refl t, fun ⟨_, h, _⟩ => absurd h List.not_mem_nil⟩
  | cons a as ih =>
      obtain ⟨hfirst, hne⟩ := lasts_step t a
      obtain ⟨hrest, hne'⟩ := ih (step t a)
      refine ⟨hfirst.trans hrest, ?_⟩
      rintro ⟨b, hmem, hb⟩
      obtain rfl | hmem := List.mem_cons.1 hmem
      · exact (hrest.begun (hne hb)).1
      · exact hne' ⟨b, hmem, hb⟩

theorem write_of_closed (hs : s.sink = .closed) (x : Exchange) {b : Bytes} (hb : b ≠ []) :
    s.write x b = (.error closedError, s, x) := by
  rw [write, if_neg hb, if_neg (by rw [hs]; exact Sink.noConfusion), push, hs]

theorem writeAll_of_closed (hs : s.sink = .closed) (x : Exchange) {b : Bytes} (hb : b ≠ []) :
    s.writeAll x b = (.error closedError, s, x) := by
  rw [writeAll, if_neg hb, write_of_closed hs x hb]

theorem flush_of_closed (hs : s.sink = .closed) (x : Exchange) :
    s.flush x = (.error closedError, s, x) := by
  rw [flush, hs]

/-- What is certain of a stream that was begun on `x` and has come to `t`, and later to `u`. -/
structure Steady (x : Exchange) (begun : Prop) (t u : ResponseStream × Exchange) : Prop where
  /-- Sending the head succeeds once at most, and once it is sent it is not sent again. -/
  sends_le : u.2.sends ≤ x.sends + 1
  sent : t.2.headersSent = true → u.2.sent = t.2.sent ∧ u.2.sends = t.2.sends
  isClosed : t.1.failed = true → t.1.isClosed = true
  failed : t.1.failed = true → u.1.failed = true ∧ u.1.isClosed = true ∧ u.1.coding = t.1.coding ∧
    u.1.written = t.1.written
  write : t.1.failed = true → ∀ b, b ≠ [] →
    u.1.write u.2 b = (.error ⟨.brokenPipe, "response stream is closed"⟩, u)
  writeAll : t.1.failed = true → ∀ b, b ≠ [] →
    u.1.writeAll u.2 b = (.error ⟨.brokenPipe, "response stream is closed"⟩, u)
  flush : t.1.failed = true → u.1.flush u.2 = (.error ⟨.brokenPipe, "response stream is closed"⟩, u)
  coding : begun → u.1.coding = t.1.coding

/-- A stream is steady whatever exchange it is begun on and whatever is done to it. It has begun
once it has been given a piece that is not empty. -/
theorem steady_stepAll (coder : Coder) (settings : CompressionSettings) (x : Exchange)
    (as more : List Step) :
    Steady x (∃ a ∈ as, a.data ≠ []) (stepAll ({ coder, settings }, x) as)
      (stepAll (stepAll ({ coder, settings }, x) as) more) := by
  obtain ⟨hfirst, hne⟩ := lasts_stepAll ({ coder, settings }, x) as
  generalize stepAll ({ coder, settings }, x) as = t at hfirst hne
  obtain ⟨hlater, -⟩ := lasts_stepAll t more
  generalize stepAll t more = u at hlater
  have hsound : t.1.Sound := hfirst.sound fun h => nomatch h
  have hstopped : t.1.failed = true → u.1 = t.1 := fun hf => hlater.stopped hf (hsound hf)
  have hclosed : t.1.failed = true → u.1.sink = .closed := fun hf => by
    rw [hstopped hf]
    exact hsound hf
  exact {
    sends_le := (hfirst.trans hlater).sendsOnce.sends_le
    sent := hlater.sendsOnce.sent
    isClosed := fun hf => decide_eq_true (hsound hf)
    failed := fun hf => by
      rw [hstopped hf]
      exact ⟨hf, decide_eq_true (hsound hf), rfl, rfl⟩
    write := fun hf b hb => write_of_closed (hclosed hf) u.2 hb
    writeAll := fun hf b hb => writeAll_of_closed (hclosed hf) u.2 hb
    flush := fun hf => flush_of_closed (hclosed hf) u.2
    coding := fun hbegun => (hlater.begun (hne hbegun)).2
  }

def stumbling : List Step :=
  [.act (.write []), .act (.writeAll (Text.encode "hello")), .turn none (some .peerClosed),
    .act .flush, .turn none none]

/-- The stream has failed for good, though the connection works again. -/
theorem steady_stepAll_stumbling :
    let t := stepAll ({ coder := .standard, settings := lightly }, unpacking) stumbling
    t.1.failed = true ∧ t.1.coding = some .gzip ∧ t.1.written = 5 ∧ t.2.sends = 1 ∧
      t.2.out.flushFailure = none ∧
      Steady unpacking (∃ a ∈ stumbling, a.data ≠ []) t
        (stepAll t [.act (.write [33]), .act .flush]) :=
  ⟨by decide +kernel, by decide +kernel, by decide +kernel, by decide +kernel, by decide +kernel,
    steady_stepAll .standard lightly unpacking stumbling [.act (.write [33]), .act .flush]⟩

end ResponseStream

end HttpDispatch
