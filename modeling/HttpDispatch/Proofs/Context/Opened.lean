import HttpDispatch.Coding.Gzip
import HttpDispatch.Proofs.Context.Moves
import HttpDispatch.Proofs.EventStream.Closing
import HttpDispatch.Proofs.Stream.Begun

/-!
# Event streams from the beginning

The settings may ask for a hint that is sent as soon as an event stream is opened. If the peer goes
away before it has arrived (`Context.HintLost`), the emitter is shut, but the stream is handed out
as an open one: its flag is not set, the callbacks wait, and so does the session.
`Context.closed_iff_isShut_useAll` says that this is the only way in which flag and emitter come to
tell different things, and that the first use that reaches for the emitter ends it.
-/

namespace HttpDispatch

open Attempt

namespace Exchange

variable {x y : Exchange}

theorem Sends.of_moves {z : Exchange} {head : ResponseHead} {payload : Bytes}
    (h : y.Sends head payload z) (hm : x.Moves y) (hs : y.headersSent = false) :
    x.Sends head payload z := by
  refine ⟨h.sent, ?_⟩
  rw [h.written, hm.out_eq_of_headersSent_eq_false hs, hm.frame.1]

theorem meets_flush (hs : x.headersSent = true) (hh : x.isHead = false) :
    Meets Exchange.Moves x x.flush fun _ y => x.out.flushFailure = none ∧
      y = { x with out := { x.out with flushes := x.out.flushes + 1 } } := by
  refine ⟨moves_flush hs hh, fun a ha => ?_⟩
  cases hf : x.out.flushFailure with
  | none =>
      rw [flush_of_flushFailure_eq_none hf]
      exact ⟨rfl, rfl⟩
  | some e =>
      unfold flush onWriter Writer.flush at ha
      simp only [hf] at ha
      cases ha

theorem meets_detach (x : Exchange) :
    Meets Exchange.Moves x x.detach fun _ y => y.out = x.out ∧ y.sent = x.sent := by
  refine ⟨moves_detach x, fun _ _ => ?_⟩
  unfold detach
  split <;> exact ⟨rfl, rfl⟩

end Exchange

namespace Context

variable {c c' : Context} {κ : Type}

/-- Between the two states the head of an event stream was sent, but not all of the hint that is to
follow it. -/
def HintLost (c c' : Context) : Prop :=
  ∃ millis, c.settings.events.retryMillis = some millis ∧ c.exchange.isHead = false ∧
    ∀ head, ¬ c.exchange.Sends head (Emitter.Block.retry millis).bytes c'.exchange

def announced (c : Context) (state : EmitterState) : Emitter :=
  match c.settings.events.retryMillis with
  | none => c.emitter state
  | some millis => ((c.emitter state).emit (.retry millis)).2

theorem announceEvents_eq (c : Context) (state : EmitterState) :
    ∃ s c', (c.announceEvents state : Attempt Context DispatchError (EventStream κ)) = (.ok s, c') ∧
      s.IsOpen [] ∧ s.emitter.state = (c.announced state).state ∧
      c'.exchange.out = (c.announced state).out ∧ c'.exchange.sent = c.exchange.sent := by
  unfold announceEvents announced
  cases c.settings.events.retryMillis with
  | none => exact ⟨_, _, rfl, ⟨rfl, rfl, rfl, rfl, rfl⟩, rfl, rfl, rfl⟩
  | some millis =>
      dsimp only
      generalize (c.emitter state).emit (.retry millis) = r
      obtain ⟨e | ⟨⟩, e'⟩ := r
      · exact ⟨_, _, rfl, ⟨rfl, rfl, rfl, rfl, rfl⟩, rfl, rfl, rfl⟩
      · exact ⟨_, _, rfl, ⟨rfl, rfl, rfl, rfl, rfl⟩, rfl, rfl, rfl⟩

theorem state_announced_muted (c : Context) : (c.announced .muted).state ≠ .shut := by
  unfold announced
  cases c.settings.events.retryMillis with
  | none => exact EmitterState.noConfusion
  | some millis => exact EmitterState.noConfusion

/-- After the head has arrived, and with a writer that can be flushed, the emitter is shut exactly
if the hint is lost. -/
theorem isShut_announced_sending {head : ResponseHead} {d : Context}
    (hh : c.exchange.isHead = false) (hsettings : d.settings = c.settings)
    (hsends : c.exchange.Sends head [] d.exchange)
    (hf : d.exchange.out.flushFailure = none) (hsent : c'.exchange.sent = d.exchange.sent)
    (hout : c'.exchange.out = (d.announced .sending).out) :
    (d.announced .sending).isShut = true ↔ c.HintLost c' := by
  unfold HintLost
  unfold announced at hout ⊢
  rw [hsettings] at hout ⊢
  cases hretry : c.settings.events.retryMillis with
  | none =>
      simp only [reduceCtorEq, false_and, exists_false, iff_false]
      exact Bool.false_ne_true
  | some millis =>
      rw [hretry] at hout
      dsimp only at hout ⊢
      rw [Emitter.isShut_emit_iff_written (e := d.emitter .sending) rfl hf, ← hout]
      constructor
      · intro hne
        refine ⟨millis, rfl, hh, fun head' h => hne ?_⟩
        have hhead : head' = head := Option.some.inj (h.sent.symm.trans (hsent.trans hsends.sent))
        have hwritten := hsends.written
        rw [List.append_nil] at hwritten
        rw [h.written, hhead, ← hwritten]
        rfl
      · rintro ⟨_, heq, -, hlost⟩ hwritten
        cases heq
        exact hlost head (hsends.append hsent hwritten)

theorem sends_sendHeaders (hs : c.exchange.headersSent = false) :
    Meets Context.Moves c c.sendHeaders fun _ c' => c'.exchange.headersSent = true ∧
      c.exchange.Sends c.exchange.nextHead [] c'.exchange := by
  obtain ⟨hmoves, hpost⟩ := c.meets_sendHeaders
  refine ⟨hmoves, fun a ha => ⟨(hpost a ha).1, ?_⟩⟩
  unfold sendHeaders attempt at ha ⊢
  rw [Attempt.snd_mapError]
  cases hc : c.exchange.closed with
  | true =>
      rw [Exchange.sendHeaders_of_closed hc] at ha
      cases ha
  | false =>
      refine (Exchange.begins_sendHeaders hc hs).post () ?_
      generalize c.exchange.sendHeaders = r at ha
      obtain ⟨e | ⟨⟩, x⟩ := r
      · cases ha
      · rfl

/-- The emitter of the stream is shut exactly if the hint was lost. -/
def Announces (c : Context) (s : EventStream κ) (c' : Context) : Prop :=
  s.IsOpen [] ∧ (s.emitter.isShut = true ↔ c.HintLost c')

theorem announces_muted {d : Context} (hh : d.exchange.isHead = true) (hm : c.Moves d)
    (hs : d.exchange.headersSent = true) :
    Meets Context.Moves d (d.announceEvents .muted : Attempt Context DispatchError (EventStream κ))
      fun s c' => c.Announces s c' := by
  have hfits : (d.emitter .muted).Fits d.exchange := ⟨hs, by rintro ⟨⟩⟩
  refine ⟨(meets_announceEvents (κ := κ) hfits).moves, ?_⟩
  obtain ⟨s, c', heq, hopen, hstate, -, -⟩ := d.announceEvents_eq (κ := κ) .muted
  rw [heq]
  rintro _ ⟨⟩
  have hnot : ¬ c.HintLost c' := by
    rintro ⟨_, -, hh', -⟩
    rw [hm.exchange.isHead_eq, hh'] at hh
    cases hh
  refine ⟨hopen, iff_of_false ?_ hnot⟩
  rw [Emitter.isShut_iff, hstate]
  exact d.state_announced_muted

theorem announces_sending {head : ResponseHead} {d : Context} (hh : c.exchange.isHead = false)
    (hm : c.Moves d) (hsends : c.exchange.Sends head [] d.exchange)
    (hf : d.exchange.out.flushFailure = none) :
    Meets Context.Moves d
      (d.announceEvents .sending : Attempt Context DispatchError (EventStream κ))
      fun s c' => c.Announces s c' := by
  have hfits : (d.emitter .sending).Fits d.exchange :=
    ⟨hsends.begins.headersSent, fun _ => hm.exchange.isHead_eq.trans hh⟩
  refine ⟨(meets_announceEvents (κ := κ) hfits).moves, ?_⟩
  obtain ⟨s, c', heq, hopen, hstate, hout, hsent⟩ := d.announceEvents_eq (κ := κ) .sending
  rw [heq]
  rintro _ ⟨⟩
  refine ⟨hopen, ?_⟩
  rw [Emitter.isShut_iff, hstate, ← Emitter.isShut_iff]
  exact isShut_announced_sending hh hm.settings hsends hf hsent hout

/-- A stream that is opened is an open one, and its emitter is shut exactly if the hint was lost. -/
theorem announces_openEvents (c : Context) :
    Meets Context.Moves c (c.openEvents : Attempt Context DispatchError (EventStream κ))
      fun s c' => c.Announces s c' := by
  unfold openEvents
  split
  · exact meets_error (.refl c)
  · refine (meets_setStatus c .ok).andThen ?_
    intro _ c₁ hm₁ _
    refine (meets_setField c₁ _ _).andThen ?_
    intro _ c₂ hm₂ _
    refine (meets_setField c₂ _ _).andThen ?_
    intro _ c₃ hm₃ _
    refine (meets_setField c₃ _ _).andThen ?_
    intro _ c₄ hm₄ hs₄
    have hm : c₄.Moves (c₄.stamp.onExchange (·.withPending (·.erase .contentLength))) :=
      (moves_stamp hs₄).trans (moves_withPending (c := c₄.stamp) hs₄ _)
    have hm₀ := (((hm₁.trans hm₂).trans hm₃).trans hm₄).trans hm
    have hs₀ : (c₄.stamp.onExchange (·.withPending (·.erase .contentLength))).exchange.headersSent =
        false := hs₄
    generalize c₄.stamp.onExchange (·.withPending (·.erase .contentLength)) = d at hm hm₀ hs₀
    refine ((sends_sendHeaders hs₀).after hm).andThen ?_
    intro _ c₅ hm₅ ⟨hs₅, hsends⟩
    have hsends₅ := hsends.of_moves hm₀.exchange hs₀
    have hm₅' : c.Moves c₅ := (((hm₁.trans hm₂).trans hm₃).trans hm₄).trans hm₅
    split
    · next hh => exact announces_muted hh hm₅' hs₅
    · next hhead =>
      have hh₅ : c₅.exchange.isHead = false := Bool.eq_false_iff.2 hhead
      have hh : c.exchange.isHead = false := hm₅'.exchange.isHead_eq.symm.trans hh₅
      split
      · exact meets_error (.refl c₅)
      · refine ((meets_attempt (Exchange.meets_flush hs₅ hh₅)).mapError _).andThen ?_
        intro _ c₆ hm₆ ⟨hf, hc₆⟩
        refine ((meets_attempt (Exchange.meets_detach c₆.exchange)).mapError _).andThen ?_
        intro _ c₇ hm₇ ⟨hout, hsent⟩
        refine announces_sending hh ((hm₅'.trans hm₆).trans hm₇) (hsends₅.of_eq ?_ ?_) ?_
        · rw [hsent, hc₆]
        · rw [hout, hc₆]
        · rw [hout, hc₆]
          exact hf

/-- However a stream that was opened is used, and whatever its writer does, flag and emitter tell
the same, unless the hint was lost and nothing has reached for the emitter since. Where they do,
everything has been done as soon as the emitter is shut. -/
theorem closed_iff_isShut_useAll {s : EventStream κ} (h : c.openEvents = (.ok s, c'))
    (us : List (EventStream.Use κ)) :
    (((s.useAll us).closed = true ↔ (s.useAll us).emitter.isShut = true) ↔
        (c.HintLost c' → ∃ u ∈ us, u.Reaches)) ∧
      ((s.useAll us).closed = true →
        (s.useAll us).HasEnded (us.flatMap EventStream.Use.callbacks)) ∧
      ((s.useAll us).closed = false →
        (s.useAll us).IsOpen (us.flatMap EventStream.Use.callbacks)) := by
  have hpost := (announces_openEvents (κ := κ) c).post s
  rw [h] at hpost
  obtain ⟨hopen, hlost⟩ := hpost rfl
  obtain ⟨hreaches, hnone⟩ := hopen.useAll us
  by_cases hu : ∃ u ∈ us, u.Reaches
  · have hstep := hreaches hu
    refine ⟨iff_of_true hstep.closed_iff_isShut fun _ => hu, fun hc => ?_, fun hc => ?_⟩
    · obtain ⟨hopen', -⟩ | hended := hstep
      · rw [hopen'.closed] at hc
        cases hc
      · exact hended
    · obtain ⟨hopen', -⟩ | hended := hstep
      · exact hopen'
      · rw [hended.closed] at hc
        cases hc
  · obtain ⟨hopen', hs⟩ := hnone hu
    refine ⟨?_, fun hc => ?_, fun _ => hopen'⟩
    · rw [hopen'.closed, hs, hlost]
      simp [hu]
    · rw [hopen'.closed] at hc
      cases hc

def leaving : Context where
  exchange := .inMemory { method := .get, path := "/events" } [] { limit := some 3 }
  settings := { events := { retryMillis := some 5000 } }
  coder := Coder.standard
  id := ⟨0⟩

/-- Nothing tells that the stream is dead: the callback is not run before something is sent. -/
theorem closed_iff_isShut_useAll_leaving :
    ∃ (s : EventStream Nat) (c' : Context), leaving.openEvents = (.ok s, c') ∧ leaving.HintLost c' ∧
      s.closed = false ∧ s.emitter.isShut = true ∧
      (s.useAll [.op (.call (.onClose 7))]).IsOpen [7] ∧
      (s.useAll [.op (.call (.onClose 7)), .op (.call (.send { data := "late" }))]).HasEnded
        [7] := by
  have hstate :
      (leaving.openEvents (κ := Nat)).1.toOption.map (fun s => (s.closed, s.emitter.isShut)) =
      some (false, true) := by decide +kernel
  have hlate : (leaving.openEvents (κ := Nat)).1.toOption.map (fun s =>
      ((s.useAll [.op (.call (.onClose 7))]).closed,
        (s.useAll [.op (.call (.onClose 7)), .op (.call (.send { data := "late" }))]).closed)) =
      some (false, true) := by decide +kernel
  rcases h : leaving.openEvents (κ := Nat) with ⟨e | s, c'⟩
  · rw [h] at hstate
    cases hstate
  · rw [h] at hstate hlate
    obtain ⟨hclosed, hshut⟩ := Prod.mk.inj (Option.some.inj hstate)
    obtain ⟨hopen, hended⟩ := Prod.mk.inj (Option.some.inj hlate)
    have hlost : leaving.HintLost c' := by
      refine Classical.byContradiction fun hnot => ?_
      have hiff := (closed_iff_isShut_useAll h []).1.2 fun hl => absurd hl hnot
      rw [EventStream.useAll, hclosed, hshut] at hiff
      cases hiff.2 rfl
    exact ⟨s, c', rfl, hlost, hclosed, hshut, (closed_iff_isShut_useAll h _).2.2 hopen,
      (closed_iff_isShut_useAll h _).2.1 hended⟩

end Context

end HttpDispatch
