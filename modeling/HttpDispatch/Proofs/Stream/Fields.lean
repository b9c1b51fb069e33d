import HttpDispatch.Proofs.Exchange.Head
import HttpDispatch.Proofs.Http.Headers
import HttpDispatch.Stream.Buffered
import HttpDispatch.Stream.ResponseStream

/-!
# The fields of a response as it stands

As long as no head has been sent a response has the pending fields, and from then on those of the
head (`Exchange.fields`). Four names belong to the way in which a body is sent, whole or piece by
piece. The values under any other name stay the same on the way, whatever fails (`Exchange.Keeps`):
a field that was pending when the sending began is on the head, and no field is added behind it.
-/

namespace HttpDispatch

/-- The name does not belong to the way in which a body is sent. -/
def FieldName.IsPlain (n : FieldName) : Prop :=
  n ∉ [connection, contentLength, contentEncoding, vary]

instance : DecidablePred FieldName.IsPlain := fun n =>
  inferInstanceAs (Decidable (n ∉ [FieldName.connection, .contentLength, .contentEncoding, .vary]))

theorem FieldName.IsPlain.ne {n : FieldName} (h : n.IsPlain) :
    n ≠ connection ∧ n ≠ contentLength ∧ n ≠ contentEncoding ∧ n ≠ vary := by
  simpa [IsPlain] using h

theorem Headers.getAll_withCoding_of_isPlain {n : FieldName} (hn : n.IsPlain) (h : Headers)
    (s : CompressionSettings) (coding : Option Coding) :
    (h.withCoding s coding).getAll n = h.getAll n :=
  h.getAll_withCoding_of_ne s coding hn.ne.2.2.1 hn.ne.2.1 hn.ne.2.2.2

namespace Exchange

variable {n : FieldName} {x y z : Exchange} {ε α : Type}

def fields (x : Exchange) : Headers :=
  match x.sent with
  | some head => head.headers
  | none => x.pending

theorem fields_of_sent {head : ResponseHead} (h : x.sent = some head) :
    x.fields = head.headers := by
  rw [fields, h]

theorem fields_of_unsent (h : x.sent = none) : x.fields = x.pending := by
  rw [fields, h]

def Keeps (n : FieldName) (x y : Exchange) : Prop := y.fields.getAll n = x.fields.getAll n

theorem Keeps.refl (x : Exchange) : x.Keeps n x := rfl

theorem Keeps.trans (h : x.Keeps n y) (h' : y.Keeps n z) : x.Keeps n z := Eq.trans h' h

theorem keeps_withPending {f : Headers → Headers} (hf : ∀ h, (f h).getAll n = h.getAll n)
    (x : Exchange) : x.Keeps n (x.withPending f) := by
  unfold Keeps fields withPending
  dsimp only
  cases x.sent with
  | none => exact hf _
  | some head => rfl

theorem keeps_sendHeaders (hn : n ≠ .connection) (x : Exchange) : x.Keeps n x.sendHeaders.2 := by
  cases hc : x.closed with
  | true =>
      rw [sendHeaders_of_closed hc]
      exact .refl x
  | false =>
      cases hs : x.headersSent with
      | true =>
          rw [sendHeaders_of_headersSent hc hs]
          exact .refl x
      | false =>
          obtain ⟨out, k, heq, -⟩ := sendHeaders_cases hc hs
          rw [heq, Keeps, fields_of_unsent (sent_eq_none hs)]
          exact getAll_nextHead hn x

theorem keeps_insert {m : FieldName} (hm : m ≠ n) (v : FieldValue) (x : Exchange) :
    x.Keeps n (x.withPending (·.insert m v)) :=
  keeps_withPending (fun h => by rw [Headers.getAll_insert, if_neg hm]) x

theorem keeps_withCoding (hn : n.IsPlain) (s : CompressionSettings) (coding : Option Coding)
    (x : Exchange) : x.Keeps n (x.withPending (·.withCoding s coding)) :=
  keeps_withPending (fun h => h.getAll_withCoding_of_isPlain hn s coding) x

theorem keeps_sendPayload (hn : n.IsPlain) (payload : Bytes) (withBody : Bool) (x : Exchange) :
    x.Keeps n (x.sendPayload payload withBody).2 := by
  have hlength := keeps_insert hn.ne.2.1.symm (.ofNat payload.length) x
  refine Attempt.andThen_preserves (P := x.Keeps n) ?_ ?_
  · rw [Attempt.snd_mapError]
    exact hlength.trans (keeps_sendHeaders hn.ne.1 _)
  · intro _ y _ hy
    split
    · exact hy
    · split
      · exact hy
      · refine Attempt.andThen_preserves (P := x.Keeps n) ?_ ?_
        · rw [Attempt.snd_mapError]
          exact hy
        · intro _ z _ hz
          rw [Attempt.snd_mapError]
          exact hz

theorem keeps_sendBody (hn : n.IsPlain) (coder : Coder) (settings : CompressionSettings)
    (body : Bytes) (withBody : Bool) (x : Exchange) :
    x.Keeps n (x.sendBody coder settings body withBody).2 := by
  unfold sendBody
  split
  · exact keeps_sendPayload hn _ _ x
  · dsimp only
    have hcoding := fun coding => keeps_withCoding hn settings coding x
    split
    · exact (hcoding _).trans (keeps_sendPayload hn _ _ _)
    · exact (hcoding _).trans (keeps_sendPayload hn _ _ _)

end Exchange

namespace ResponseStream

open Exchange

variable {n : FieldName} {α : Type} {x : Exchange} {r : Attempt Exchange IoError α}

theorem keeps_abandon (s : ResponseStream) (x : Exchange) : x.Keeps n (s.abandon x) := by
  unfold abandon
  split <;> exact .refl x

theorem keeps_fail (s : ResponseStream) (x : Exchange) (e : IoError) :
    x.Keeps n (s.fail x e).2 := by
  unfold fail
  dsimp only
  split
  · exact s.keeps_abandon x
  · exact s.keeps_abandon (x.report _)

theorem keeps_settle (s : ResponseStream) (h : x.Keeps n r.2) : x.Keeps n (s.settle r).2.2 := by
  obtain ⟨e | a, y⟩ := r
  · exact h.trans (s.keeps_fail y e)
  · exact h

theorem keeps_start (hn : n.IsPlain) (s : ResponseStream) (x : Exchange) (size : Nat) :
    x.Keeps n (s.start x size).2.2 := by
  unfold start
  dsimp only
  generalize s.settings.choose x.request.headers x.pending size = coding
  refine (keeps_withCoding hn s.settings coding x).trans ?_
  have hsend := keeps_sendHeaders hn.ne.1 (x.withPending (·.withCoding s.settings coding))
  split
  · next heq =>
    rw [heq] at hsend
    exact hsend
  · next heq =>
    rw [heq] at hsend
    exact hsend

theorem keeps_push (s : ResponseStream) (x : Exchange) (b : Bytes) :
    x.Keeps n (s.push x b).2.2 := by
  unfold push
  split
  · exact .refl x
  · exact .refl x
  · exact .refl x
  · have hwrite : x.Keeps n (x.write b).2 := .refl x
    generalize x.write b = r at hwrite ⊢
    obtain ⟨e | k, y⟩ := r
    · exact hwrite.trans (s.keeps_fail y e)
    · exact hwrite
  · next coding history passed _ =>
    have hdeliver : x.Keeps n (s.deliver coding history passed x).2 := .refl x
    generalize s.deliver coding history passed x = r at hdeliver ⊢
    obtain ⟨e | ⟨⟩, y⟩ := r
    · exact hdeliver.trans (keeps_fail _ y e)
    · exact hdeliver

theorem keeps_write (hn : n.IsPlain) (s : ResponseStream) (x : Exchange) (b : Bytes) :
    x.Keeps n (s.write x b).2.2 := by
  unfold write
  split
  · exact .refl x
  · split
    · exact Attempt.andThen_preserves (P := fun t : ResponseStream × Exchange => x.Keeps n t.2)
        (s.keeps_start hn x _) fun _ t _ ht => ht.trans (t.1.keeps_push t.2 b)
    · exact s.keeps_push x b

theorem keeps_writeAll (hn : n.IsPlain) (s : ResponseStream) (x : Exchange) (b : Bytes) :
    x.Keeps n (s.writeAll x b).2.2 := by
  induction s, x, b using writeAll.induct with
  | case1 s x =>
      rw [writeAll, if_pos rfl]
      exact .refl x
  | case2 s x b hb e t hw =>
      have h := s.keeps_write hn x b
      rw [hw] at h
      rw [writeAll, if_neg hb, hw]
      exact h
  | case3 s x b hb t hw =>
      have h := s.keeps_write hn x b
      rw [hw] at h
      rw [writeAll, if_neg hb, hw]
      exact h
  | case4 s x b hb k s' y hw ih =>
      have h := s.keeps_write hn x b
      rw [hw] at h
      rw [writeAll, if_neg hb, hw]
      exact h.trans ih

theorem keeps_flush (s : ResponseStream) (x : Exchange) : x.Keeps n (s.flush x).2.2 := by
  unfold flush
  split
  · exact .refl x
  · exact .refl x
  · exact .refl x
  · exact s.keeps_settle (.refl x)
  · next coding history passed _ =>
    have hdeliver : x.Keeps n (s.deliver coding (history ++ [.flush]) passed x).2 := .refl x
    dsimp only
    generalize s.deliver coding (history ++ [.flush]) passed x = r at hdeliver ⊢
    obtain ⟨e | ⟨⟩, y⟩ := r
    · exact hdeliver.trans (keeps_fail _ y e)
    · exact hdeliver.trans (keeps_settle _ (.refl y))

theorem keeps_endSink (hn : n.IsPlain) (s : ResponseStream) (x : Exchange) :
    x.Keeps n (s.endSink x).2 := by
  unfold endSink
  split
  · split
    · exact .refl x
    · rw [Attempt.snd_mapError]
      exact (keeps_insert hn.ne.2.1.symm _ x).trans (keeps_sendHeaders hn.ne.1 _)
  · exact .refl x
  · exact .refl x
  · exact Attempt.andThen_preserves (P := x.Keeps n) (.refl x) fun _ _ _ h => h
  · exact .refl x

theorem keeps_finish (hn : n.IsPlain) (s : ResponseStream) (x : Exchange) :
    x.Keeps n (s.finish x).2.2 :=
  keeps_settle _ (s.keeps_endSink hn x)

theorem keeps_drop (hn : n.IsPlain) (s : ResponseStream) (x : Exchange) :
    x.Keeps n (s.drop x).2 := by
  have h := s.keeps_finish hn x
  unfold drop
  split
  · exact .refl x
  · split
    · next heq =>
      rw [heq] at h
      exact h
    · next heq =>
      rw [heq] at h
      exact h

end ResponseStream

end HttpDispatch
