import HttpDispatch.Proofs.Attempt
import HttpDispatch.Proofs.Exchange.Moves
import HttpDispatch.Stream.Buffered

/-!
# Bodies sent in one piece, as moves

A body that is known as a whole is sent by moves of its exchange. Once that has succeeded the head
has been sent, with the status that the exchange had before.
-/

namespace HttpDispatch.Exchange

open Attempt

variable {x y : Exchange}

theorem meets_sendHeaders (x : Exchange) :
    Meets Exchange.Moves x x.sendHeaders fun _ y => y.headersSent = true ∧ y.status = x.status := by
  refine ⟨moves_sendHeaders x, ?_⟩
  intro _ hok
  have hsent := headersSent_of_sendHeaders (Prod.ext hok rfl)
  refine ⟨hsent, ?_⟩
  cases hc : x.closed with
  | true => rw [sendHeaders_of_closed hc]
  | false =>
      cases hs : x.headersSent with
      | true => rw [sendHeaders_of_headersSent hc hs]
      | false =>
          obtain ⟨out, n, heq, -⟩ := sendHeaders_cases hc hs
          rw [heq]

theorem Moves.sent_and_status {s : Status} (hm : x.Moves y)
    (h : x.headersSent = true ∧ x.status = s) : y.headersSent = true ∧ y.status = s := by
  obtain ⟨head, hhead⟩ := Option.isSome_iff_exists.1 h.1
  exact ⟨hm.headersSent_mono h.1, (hm.of_sent hhead).2.trans h.2⟩

theorem meets_sendPayload (hs : x.headersSent = false) (payload : Bytes) {withBody : Bool}
    (hb : withBody = true → x.isHead = false) :
    Meets Exchange.Moves x (x.sendPayload payload withBody)
      fun _ y => y.headersSent = true ∧ y.status = x.status := by
  unfold sendPayload
  refine Meets.after ?_ (moves_withPending hs (·.insert .contentLength (.ofNat payload.length)))
  refine ((meets_sendHeaders _).mapError _).andThen ?_
  intro _ y hm hsent
  split
  · exact meets_ok .refl hsent
  · next hwith =>
    have hh : y.isHead = false := by
      rw [hm.isHead_eq]
      apply hb
      cases withBody with
      | true => rfl
      | false => exact absurd rfl hwith
    split
    · exact meets_error .refl
    · have hw := moves_writeAll hsent.1 hh payload
      have hwrite : Meets Exchange.Moves y (y.writeAll payload)
          fun _ z => z.headersSent = true ∧ z.status = x.status :=
        ⟨hw, fun _ _ => hw.sent_and_status hsent⟩
      refine (hwrite.mapError _).andThen ?_
      intro _ z hm' hsent'
      have hf := moves_flush hsent'.1 (hm'.isHead_eq.trans hh)
      exact Meets.mapError ⟨hf, fun _ _ => hf.sent_and_status hsent'⟩ _

theorem meets_sendBody (hs : x.headersSent = false) (coder : Coder) (settings : CompressionSettings)
    (body : Bytes) :
    Meets Exchange.Moves x (x.sendBody coder settings body (!x.isHead))
      fun _ y => y.headersSent = true ∧ y.status = x.status := by
  unfold sendBody
  rw [Bool.not_not]
  split
  · exact meets_sendPayload hs body (fun h => absurd h Bool.false_ne_true)
  · next hhead =>
    have hh : x.isHead = false := Bool.eq_false_iff.2 hhead
    simp only
    generalize settings.choose x.request.headers x.pending body.length = coding
    have hm := moves_withPending hs (·.withCoding settings coding)
    cases coding with
    | none =>
        exact Meets.after
          (meets_sendPayload (x := x.withPending (·.withCoding settings none)) hs body fun _ => hh)
          hm
    | some c =>
        exact Meets.after
          (meets_sendPayload (x := (x.withPending (·.withCoding settings (some c))).report _) hs _
            fun _ => hh)
          (hm.trans (moves_report _ _))

end HttpDispatch.Exchange
