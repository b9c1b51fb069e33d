import HttpDispatch.Proofs.Exchange.Head
import HttpDispatch.Stream.Buffered

/-!
# Bodies sent in one piece, on an exchange that works

On an exchange that is ready for its head and delivers what is written to it (`Exchange.Works`), a
body that is known as a whole is sent with the length that it has on the way:
`Exchange.sends_sendBody` gives the head and the bytes behind it.
-/

namespace HttpDispatch

namespace Coder

def payload (c : Coder) (coding : Option Coding) (level : Nat) (body : Bytes) : Bytes :=
  match coding with
  | none => body
  | some k => c.encodeAll k level body

def Carries (c : Coder) (coding : Option Coding) (payload body : Bytes) : Prop :=
  match coding with
  | none => payload = body
  | some k => c.decode k payload = some body

theorem IsLawful.carries_payload {c : Coder} {level most : Nat} (h : c.IsLawful most)
    (hl : level ≤ most) (coding : Option Coding) (body : Bytes) :
    c.Carries coding (c.payload coding level body) body := by
  cases coding with
  | none => rfl
  | some k =>
      have hdecode := h.decode_encode k level [.data body] hl (by simp)
      simpa [Carries, payload, encodeAll, Feed.content] using hdecode

end Coder

namespace Exchange

variable {x y : Exchange} {head : ResponseHead} {payload : Bytes}

/-- The exchange is ready for its head, and what is written to it is delivered. -/
structure Works (x : Exchange) : Prop extends x.Ready where
  flushFailure : x.out.flushFailure = none

/-- What has been sent between the two states: the head, and the payload behind it. -/
structure Sends (x : Exchange) (head : ResponseHead) (payload : Bytes) (y : Exchange) : Prop where
  sent : y.sent = some head
  written : y.out.written = x.out.written ++ x.transport.headBytes head ++ payload

theorem Ready.withPending (h : x.Ready) (f : Headers → Headers) : (x.withPending f).Ready :=
  ⟨h.closed, h.headersSent, h.limit⟩

theorem Works.withPending (h : x.Works) (f : Headers → Headers) : (x.withPending f).Works :=
  ⟨h.toReady.withPending f, h.flushFailure⟩

theorem Works.report (h : x.Works) (e : LogEvent) : (x.report e).Works :=
  ⟨⟨h.closed, h.headersSent, h.limit⟩, h.flushFailure⟩

theorem write_of_limit_eq_none (h : x.out.limit = none) (b : Bytes) :
    x.write b = (.ok b.length, { x with out := x.out.receive b }) := by
  unfold write onWriter
  simp only
  rw [Writer.write_of_limit_eq_none h]
  rfl

theorem writeAll_of_limit_eq_none (h : x.out.limit = none) (b : Bytes) :
    x.writeAll b = (.ok (), { x with out := x.out.receive b }) := by
  unfold writeAll onWriter
  simp only
  rw [Writer.writeAll_of_limit_eq_none h]
  rfl

theorem flush_of_flushFailure_eq_none (h : x.out.flushFailure = none) :
    x.flush = (.ok (), { x with out := { x.out with flushes := x.out.flushes + 1 } }) := by
  unfold flush onWriter Writer.flush
  simp only
  rw [h]
  rfl

theorem Ready.sends_sendHeaders (h : x.Ready) :
    ∃ y, x.sendHeaders = (.ok (), y) ∧ x.Sends x.nextHead [] y := by
  refine ⟨_, h.sendHeaders_eq, rfl, ?_⟩
  rw [List.append_nil]
  rfl

def lengthHead (x : Exchange) (length : Nat) : ResponseHead :=
  (x.withPending (·.insert .contentLength (.ofNat length))).nextHead

/-- The head is sent with the length of the payload, even if there is to be no body. -/
theorem Ready.sends_sendPayload (h : x.Ready) (payload : Bytes) :
    ∃ y, x.sendPayload payload false = (.ok (), y) ∧
      x.Sends (x.lengthHead payload.length) [] y := by
  have hx := h.withPending (·.insert .contentLength (.ofNat payload.length))
  obtain ⟨y, hsend, hy⟩ := hx.sends_sendHeaders
  refine ⟨y, ?_, hy.sent, hy.written⟩
  unfold sendPayload
  simp only
  rw [hsend]
  rfl

theorem Works.sends_sendPayload (h : x.Works) (payload : Bytes) :
    ∃ y, x.sendPayload payload true = (.ok (), y) ∧
      x.Sends (x.lengthHead payload.length) payload y := by
  have hx := h.withPending (·.insert .contentLength (.ofNat payload.length))
  obtain ⟨y, hsend, hy⟩ := hx.toReady.sends_sendHeaders
  unfold sendPayload
  simp only
  rw [hsend]
  simp only [Attempt.mapError, Attempt.andThen_ok, Bool.not_true, Bool.false_or]
  by_cases hp : payload = []
  · subst hp
    exact ⟨y, rfl, hy.sent, hy.written⟩
  · have hout : y.closed = false ∧ y.out.limit = none ∧ y.out.flushFailure = none := by
      have heq := hx.toReady.sendHeaders_eq
      rw [hsend] at heq
      cases heq
      exact ⟨h.closed, h.limit, h.flushFailure⟩
    obtain ⟨hclosed, hlimit, hflush⟩ := hout
    have houtput : y.output = .ok () := by
      unfold output headersSent
      rw [if_neg (Bool.eq_false_iff.1 hclosed), hy.sent]
      rfl
    have hwrite := writeAll_of_limit_eq_none hlimit payload
    generalize hz : ({ y with out := y.out.receive payload } : Exchange) = z at hwrite
    have hz' : z.out.flushFailure = none := hz ▸ hflush
    rw [if_neg (by simpa using hp), houtput]
    simp only
    rw [hwrite]
    simp only [Attempt.andThen_ok]
    rw [flush_of_flushFailure_eq_none hz', ← hz]
    refine ⟨_, rfl, hy.sent, ?_⟩
    have hwritten := hy.written
    rw [List.append_nil] at hwritten
    change y.out.written ++ payload = _
    rw [hwritten]
    rfl

/-- A whole body is sent in the coding that is chosen for it, and with the length that it has in
that coding. -/
theorem Works.sends_sendBody (h : x.Works) (coder : Coder) (settings : CompressionSettings)
    (body : Bytes) {coding : Option Coding}
    (hc : settings.choose x.request.headers x.pending body.length = coding) :
    ∃ y, x.sendBody coder settings body true = (.ok (), y) ∧
      x.Sends
        ((x.withPending (·.withCoding settings coding)).lengthHead
          (coder.payload coding settings.level body).length)
        (coder.payload coding settings.level body) y := by
  have hx := h.withPending (·.withCoding settings coding)
  unfold sendBody
  simp only [Bool.not_true, Bool.false_eq_true, if_false]
  rw [hc]
  cases coding with
  | none =>
      obtain ⟨y, hsend, hy⟩ := hx.sends_sendPayload body
      exact ⟨y, hsend, hy.sent, hy.written⟩
  | some k =>
      let payload := coder.encodeAll k settings.level body
      have hr := hx.report (.bodyCompressed k.name body.length payload.length)
      obtain ⟨y, hsend, hy⟩ := hr.sends_sendPayload payload
      exact ⟨y, hsend, hy.sent, hy.written⟩

end Exchange

end HttpDispatch
