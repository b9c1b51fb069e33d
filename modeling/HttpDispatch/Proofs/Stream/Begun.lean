import HttpDispatch.Proofs.Attempt
import HttpDispatch.Proofs.Stream.Sent

/-!
# Responses that may break off

On a writer that may refuse at any byte, what arrives of a response is a beginning of it
(`Exchange.Begins`), and all of it if nothing was refused. This is said of sending the head and of a
body that is known as a whole, whatever state the writer is in; `Exchange.Sends` is the case in
which nothing is refused.
-/

namespace HttpDispatch

namespace Exchange

open Attempt

variable {x y : Exchange} {head : ResponseHead} {payload : Bytes}

/-- The head counts as sent, and what has arrived between the two states is a beginning of the head
and the payload behind it. -/
structure Begins (x : Exchange) (head : ResponseHead) (payload : Bytes) (y : Exchange) : Prop where
  sent : y.sent = some head
  written : ∃ b, b <+: x.transport.headBytes head ++ payload ∧ y.out.written = x.out.written ++ b

theorem Sends.begins (h : x.Sends head payload y) : x.Begins head payload y :=
  ⟨h.sent, _, List.prefix_rfl, by rw [h.written, List.append_assoc]⟩

theorem Begins.headersSent (h : x.Begins head payload y) : y.headersSent = true := by
  rw [Exchange.headersSent, h.sent]
  rfl

theorem Begins.of_eq (h : x.Begins head payload y) {z : Exchange} (hsent : z.sent = y.sent)
    (hwritten : z.out.written = y.out.written) : x.Begins head payload z :=
  ⟨hsent.trans h.sent, by rw [hwritten]; exact h.written⟩

theorem Sends.of_eq (h : x.Sends head payload y) {z : Exchange} (hsent : z.sent = y.sent)
    (hwritten : z.out.written = y.out.written) : x.Sends head payload z :=
  ⟨hsent.trans h.sent, hwritten.trans h.written⟩

theorem Begins.mono (h : x.Begins head payload y) {longer : Bytes} (hp : payload <+: longer) :
    x.Begins head longer y := by
  obtain ⟨b, hb, hwritten⟩ := h.written
  exact ⟨h.sent, b, hb.trans ((List.prefix_append_right_inj _).2 hp), hwritten⟩

/-- The state after the head has been sent, as far as the writer takes it. -/
theorem exists_sendHeaders (hc : x.closed = false) (hs : x.headersSent = false) :
    ∃ out n, x.sendHeaders.2 =
        { x with pending := x.nextHead.headers, sent := some x.nextHead, out, sends := n } ∧
      out.written = x.out.written ++ x.out.taken (x.transport.headBytes x.nextHead) ∧
      (x.sendHeaders.1 = .ok () →
        x.out.taken (x.transport.headBytes x.nextHead) = x.transport.headBytes x.nextHead) := by
  obtain ⟨out, n, heq, -, -⟩ := sendHeaders_cases hc hs
  have hwritten := written_sendHeaders hc hs
  rw [heq] at hwritten
  refine ⟨out, n, heq, hwritten, fun hok => ?_⟩
  unfold sendHeaders at hok
  rw [if_neg (Bool.eq_false_iff.1 hc), if_neg (Bool.eq_false_iff.1 hs)] at hok
  unfold nextHead
  cases ht : x.transport with
  | memory => exact x.out.taken_nil
  | wire =>
      rw [ht] at hok
      dsimp only [Transport.headBytes] at hok ⊢
      refine Writer.taken_of_writeAll_ok ?_
      split at hok
      · next hw => rw [hw]
      · cases hok

theorem begins_sendHeaders (hc : x.closed = false) (hs : x.headersSent = false) :
    Meets (·.Begins x.nextHead [] ·) x x.sendHeaders fun _ y => x.Sends x.nextHead [] y := by
  obtain ⟨out, n, heq, hwritten, hall⟩ := exists_sendHeaders hc hs
  refine ⟨⟨?_, x.out.taken (x.transport.headBytes x.nextHead), ?_, ?_⟩, fun _ hok => ⟨?_, ?_⟩⟩
  · rw [heq]
  · rw [List.append_nil]
    exact x.out.taken_prefix _
  · rw [heq]
    exact hwritten
  · rw [heq]
  · rw [heq, List.append_nil, ← hall hok]
    exact hwritten

theorem Sends.begins_append (h : x.Sends head [] y) {z : Exchange} {b : Bytes}
    (hsent : z.sent = y.sent) (hb : b <+: payload) (hwritten : z.out.written = y.out.written ++ b) :
    x.Begins head payload z := by
  refine ⟨hsent.trans h.sent, x.transport.headBytes head ++ b,
    (List.prefix_append_right_inj _).2 hb, ?_⟩
  rw [hwritten, h.written, List.append_nil, List.append_assoc]

theorem Sends.append (h : x.Sends head [] y) {z : Exchange} (hsent : z.sent = y.sent)
    (hwritten : z.out.written = y.out.written ++ payload) : x.Sends head payload z :=
  ⟨hsent.trans h.sent, by rw [hwritten, h.written, List.append_nil]⟩

theorem begins_writeAll {ε : Type} (h : x.Sends head [] y) (payload : Bytes) (f : IoError → ε) :
    Meets (·.Begins head payload ·) x
      (((y.writeAll payload).mapError f).andThen fun _ z => z.flush.mapError f)
      fun _ z => x.Sends head payload z := by
  have hwritten : (y.out.writeAll payload).2.written = y.out.written ++ y.out.taken payload :=
    y.out.written_writeAll payload
  have hall := Writer.taken_of_writeAll_ok (w := y.out) (b := payload)
  unfold writeAll onWriter
  dsimp only
  generalize y.out.writeAll payload = r at hwritten hall ⊢
  obtain ⟨e | ⟨⟩, w⟩ := r
  · refine meets_error ?_
    change x.Begins head payload { y with out := w }
    exact h.begins_append rfl (y.out.taken_prefix payload) hwritten
  · have hflushed : ({ y with out := w }.flush).2.out.written = w.written := w.written_flush
    have hwritten' : ({ y with out := w }.flush).2.out.written = y.out.written ++ payload := by
      rw [hflushed, hwritten, hall rfl]
    have hsends : x.Sends head payload ({ y with out := w }.flush).2 := h.append rfl hwritten'
    refine Meets.mapError ?_ f
    exact ⟨hsends.begins, fun _ _ => hsends⟩

/-- Of a payload and a head that announces its length, a beginning arrives. -/
theorem begins_sendPayload (hc : x.closed = false) (hs : x.headersSent = false) (payload : Bytes) :
    Meets (·.Begins (x.lengthHead payload.length) payload ·) x (x.sendPayload payload true)
      fun _ y => x.Sends (x.lengthHead payload.length) payload y := by
  have hsend := begins_sendHeaders
    (x := x.withPending (·.insert .contentLength (.ofNat payload.length))) hc hs
  obtain ⟨out, n, heq, -⟩ := exists_sendHeaders
    (x := x.withPending (·.insert .contentLength (.ofNat payload.length))) hc hs
  unfold sendPayload
  dsimp only
  generalize Exchange.sendHeaders _ = r at hsend heq ⊢
  obtain ⟨e | ⟨⟩, y⟩ := r
  · exact meets_error
      ((⟨hsend.moves.sent, hsend.moves.written⟩ : x.Begins _ [] y).mono List.nil_prefix)
  · have hsends : x.Sends (x.lengthHead payload.length) [] y :=
      ⟨(hsend.post () rfl).sent, (hsend.post () rfl).written⟩
    have hoption : y.output = .ok () := by
      have hclosed : y.closed = false := by
        rw [show y = _ from heq]
        exact hc
      rw [output, if_neg (Bool.eq_false_iff.1 hclosed), headersSent, hsends.sent]
      rfl
    rw [Attempt.mapError, Attempt.andThen_ok, Bool.not_true, Bool.false_or]
    split
    · next hempty =>
      rw [List.isEmpty_iff.1 hempty] at hsends ⊢
      exact meets_ok hsends.begins hsends
    · rw [hoption]
      exact begins_writeAll hsends payload _

theorem begins_sendBody (hc : x.closed = false) (hs : x.headersSent = false) (coder : Coder)
    (settings : CompressionSettings) (body : Bytes) {coding : Option Coding}
    (hcoding : settings.choose x.request.headers x.pending body.length = coding)
    (hpayload : coder.payload coding settings.level body = payload)
    (hhead : (x.withPending (·.withCoding settings coding)).lengthHead payload.length = head) :
    Meets (·.Begins head payload ·) x (x.sendBody coder settings body true)
      fun _ y => x.Sends head payload y := by
  subst hhead
  unfold sendBody
  rw [if_neg (by decide), hcoding]
  dsimp only
  cases coding with
  | none =>
      obtain rfl : body = payload := hpayload
      have h := begins_sendPayload (x := x.withPending (·.withCoding settings none)) hc hs body
      exact ⟨⟨h.moves.sent, h.moves.written⟩,
        fun a ha => ⟨(h.post a ha).sent, (h.post a ha).written⟩⟩
  | some k =>
      obtain rfl : coder.encodeAll k settings.level body = payload := hpayload
      have h := begins_sendPayload
        (x := (x.withPending (·.withCoding settings (some k))).report
          (.bodyCompressed k.name body.length (coder.encodeAll k settings.level body).length)) hc hs
        (coder.encodeAll k settings.level body)
      exact ⟨⟨h.moves.sent, h.moves.written⟩,
        fun a ha => ⟨(h.post a ha).sent, (h.post a ha).written⟩⟩

end Exchange

end HttpDispatch
