import HttpDispatch.Proofs.Stream.Moves
import HttpDispatch.Proofs.Stream.Whole

/-!
# Answers that a cache keeps apart

The coding of an answer depends on what the client offers. A cache that is shared by several clients
only knows that from the field `vary`: an answer that was stored for one request is used for another
if the two have the same values under every name that the answer lists there (`Headers.ServesFor`).

Whether a body is sent as a whole or piece by piece, its head is decided by the pending fields and
by the size that the coding is chosen for (`ResponseHead.DecidedBy`). Where the pending fields allow
a coding at all, the head lists `accept-encoding`, whatever was chosen; where they do not, no coding
is chosen for anybody.
-/

namespace HttpDispatch

theorem FieldName.ofString?_eq_some_iff {s : String} {n : FieldName} :
    FieldName.ofString? s = some n ↔ Text.lower s = n.text := by
  unfold FieldName.ofString?
  constructor
  · intro h
    split at h
    · cases h
      rfl
    · cases h
  · intro h
    have hname : isFieldName (Text.lower s) = true := h ▸ n.isName
    rw [dif_pos hname]
    obtain ⟨text, _⟩ := n
    cases h
    rfl

namespace Headers

variable {g h : Headers}

/-- The field `vary` lists the name, in any mixture of case. -/
def Lists (h : Headers) (n : FieldName) : Prop :=
  ∃ v ∈ h.getAll .vary, ∃ s, v.text? = some s ∧
    ∃ item ∈ Text.split ',' s, FieldName.ofString? (Text.trim item) = some n

/-- A cache that holds the answer with the fields `h` to a request with the fields `request` uses it
for a request with the fields `request'`. -/
def ServesFor (h request request' : Headers) : Prop :=
  ∀ n, h.Lists n → request'.getAll n = request.getAll n

theorem Lists.congr (hv : g.getAll .vary = h.getAll .vary) {n : FieldName} (hl : g.Lists n) :
    h.Lists n := by
  unfold Lists at hl ⊢
  rwa [hv] at hl

theorem namesAcceptEncoding_iff (value : String) :
    namesAcceptEncoding value = true ↔
      ∃ item ∈ Text.split ',' value, FieldName.ofString? (Text.trim item) =
        some .acceptEncoding := by
  have hitem : ∀ item, Text.sameLetters item "accept-encoding" = true ↔
      FieldName.ofString? item = some .acceptEncoding := by
    intro item
    have hsmall : "accept-encoding".toList.map Char.toLower = "accept-encoding".toList := by decide
    rw [FieldName.ofString?_eq_some_iff, Text.sameLetters, hsmall, beq_iff_eq, Text.lower,
      FieldName.acceptEncoding, ← String.toList_inj]
    simp only [String.toList_ofList]
  simp only [namesAcceptEncoding, List.any_eq_true, hitem]

theorem lists_acceptEncoding_iff (h : Headers) :
    h.Lists .acceptEncoding ↔ (h.texts .vary).any namesAcceptEncoding = true := by
  simp only [Lists, texts, List.any_eq_true, List.mem_filterMap, namesAcceptEncoding_iff]
  constructor
  · rintro ⟨v, hv, s, hs, hitem⟩
    exact ⟨s, ⟨v, hv, hs⟩, hitem⟩
  · rintro ⟨s, ⟨v, hv, hs⟩, hitem⟩
    exact ⟨v, hv, s, hs, hitem⟩

theorem lists_addVary (h : Headers) : h.addVary.Lists .acceptEncoding := by
  rw [lists_acceptEncoding_iff]
  cases hv : (h.texts .vary).any namesAcceptEncoding with
  | true =>
      unfold addVary
      rw [if_pos hv, hv]
  | false =>
      rw [texts, getAll_addVary, if_pos ⟨rfl, hv⟩, List.filterMap_append, List.any_append,
        Bool.or_eq_true]
      exact .inr (by decide +kernel)

theorem getAll_vary_withCoding {s : CompressionSettings} (hn : s.isNegotiable h = true)
    (coding : Option Coding) : (h.withCoding s coding).getAll .vary = h.addVary.getAll .vary := by
  have he : FieldName.contentEncoding ≠ .vary := by decide
  have hl : FieldName.contentLength ≠ .vary := by decide
  unfold withCoding
  rw [if_pos hn]
  cases coding with
  | none => rfl
  | some c => simp [he, hl]

/-- Where a coding is allowed, the response says that it depends on what is offered, whatever was
chosen. -/
theorem lists_withCoding {s : CompressionSettings} (hn : s.isNegotiable h = true)
    (coding : Option Coding) : (h.withCoding s coding).Lists .acceptEncoding :=
  h.lists_addVary.congr (getAll_vary_withCoding hn coding).symm

end Headers

/-- Of what the client says, only the offer has an influence on the coding. -/
theorem CompressionSettings.choose_congr {g g' : Headers}
    (h : g'.getAll .acceptEncoding = g.getAll .acceptEncoding) (s : CompressionSettings)
    (response : Headers) (size : Nat) : s.choose g' response size = s.choose g response size := by
  rw [choose, choose, Headers.texts, Headers.texts, h]

/-!
## Heads and what they were decided by
-/

/-- The head has the coding that is chosen for the given size, and says what it depends on. Without
a size, no coding is chosen. -/
def ResponseHead.DecidedBy (settings : CompressionSettings) (x : Exchange) :
    Option Nat → ResponseHead → Prop
  | none, head => head.headers.getAll .contentEncoding = x.pending.getAll .contentEncoding
  | some size, head =>
    ∀ n, n = .contentEncoding ∨ n = .vary → head.headers.getAll n =
      (x.pending.withCoding settings (settings.choose x.request.headers x.pending size)).getAll n

/-- Two heads have the same coding, or they both say that it depends on what is offered. -/
structure ResponseHead.KeptApart (head head' : ResponseHead) (request request' : Headers) :
    Prop where
  lists : head.headers.getAll .contentEncoding ≠ head'.headers.getAll .contentEncoding →
    head.headers.Lists .acceptEncoding ∧ head'.headers.Lists .acceptEncoding
  /-- A client that is given the stored answer to another one's request gets the coding of its own
  answer. -/
  shared : head.headers.ServesFor request request' ∨ head'.headers.ServesFor request' request →
    head.headers.getAll .contentEncoding = head'.headers.getAll .contentEncoding

namespace Exchange

variable {x y : Exchange} {settings : CompressionSettings} {head head' : ResponseHead}

theorem keptApart_of_decidedBy (hp : y.pending = x.pending) {size? : Option Nat}
    (h : head.DecidedBy settings x size?) (h' : head'.DecidedBy settings y size?) :
    head.KeptApart head' x.request.headers y.request.headers := by
  cases size? with
  | none =>
      have heq : head.headers.getAll .contentEncoding = head'.headers.getAll .contentEncoding := by
        rw [show _ = _ from h, show _ = _ from h', hp]
      exact ⟨fun hne => absurd heq hne, fun _ => heq⟩
  | some size =>
      have hc := h .contentEncoding (.inl rfl)
      have hc' := h' .contentEncoding (.inl rfl)
      have hv := h .vary (.inr rfl)
      have hv' := h' .vary (.inr rfl)
      rw [hp] at hc' hv'
      cases hn : settings.isNegotiable x.pending with
      | false =>
          have heq :
              head.headers.getAll .contentEncoding = head'.headers.getAll .contentEncoding := by
            rw [hc, hc', CompressionSettings.choose_of_isNegotiable_eq_false hn,
              CompressionSettings.choose_of_isNegotiable_eq_false hn]
          exact ⟨fun hne => absurd heq hne, fun _ => heq⟩
      | true =>
          have hl : head.headers.Lists .acceptEncoding :=
            (Headers.lists_withCoding hn _).congr hv.symm
          have hl' : head'.headers.Lists .acceptEncoding :=
            (Headers.lists_withCoding hn _).congr hv'.symm
          refine ⟨fun _ => ⟨hl, hl'⟩, fun hserves => ?_⟩
          have hoffer :
              y.request.headers.getAll .acceptEncoding = x.request.headers.getAll .acceptEncoding :=
            hserves.elim (fun hs => hs _ hl) (fun hs => (hs _ hl').symm)
          rw [hc, hc', CompressionSettings.choose_congr hoffer]

theorem eq_nextHead_of_sendHeaders (hs : x.headersSent = false)
    (h : x.sendHeaders.2.sent = some head) : head = x.nextHead := by
  cases hc : x.closed with
  | true =>
      rw [sendHeaders_of_closed hc, sent_eq_none hs] at h
      cases h
  | false =>
      obtain ⟨out, n, heq, -⟩ := sendHeaders_cases hc hs
      rw [heq] at h
      cases h
      rfl

/-- The head has been sent, or never will be. -/
def Settled (x : Exchange) : Prop := x.headersSent = true ∨ x.closed = true

theorem Moves.sent_eq_of_settled (hm : x.Moves y) (h : x.Settled) : y.sent = x.sent := by
  obtain h | h := h
  · obtain ⟨head, hhead⟩ := Option.isSome_iff_exists.1 h
    rw [(hm.of_sent hhead).1, hhead]
  · induction hm with
    | refl => rfl
    | @tail y z hxy hm ih =>
        have hclosed : y.closed = true := (Moves.frame hxy).2.2.1.trans h
        cases hm with
        | head _ hc => exact absurd hclosed (Bool.eq_false_iff.1 hc)
        | _ => exact ih

theorem settled_sendHeaders (x : Exchange) : x.sendHeaders.2.Settled := by
  cases hc : x.closed with
  | true => exact .inr (by rw [sendHeaders_of_closed hc]; exact hc)
  | false =>
      cases hs : x.headersSent with
      | true => exact .inl (by rw [sendHeaders_of_headersSent hc hs]; exact hs)
      | false =>
          obtain ⟨out, n, heq, -⟩ := sendHeaders_cases hc hs
          exact .inl (by rw [heq]; rfl)

/-- The head with the length of a body has no coding that was not pending. -/
theorem decidedBy_length (hs : x.headersSent = false) {length : Nat}
    (h : (x.withPending (·.insert .contentLength (.ofNat length))).sendHeaders.2.sent = some head) :
    head.DecidedBy settings x none := by
  have hc : FieldName.contentEncoding ≠ .connection := by decide
  have hne : FieldName.contentLength ≠ .contentEncoding := by decide
  rw [eq_nextHead_of_sendHeaders (x := x.withPending _) hs h]
  exact (getAll_nextHead hc _).trans ((Headers.getAll_insert _ _ _ _).trans (if_neg hne))

theorem decidedBy_withCoding (hs : x.headersSent = false) {size : Nat}
    (h : (x.withPending (·.withCoding settings
      (settings.choose x.request.headers x.pending size))).sendHeaders.2.sent = some head) :
    head.DecidedBy settings x (some size) := by
  intro n hn
  have hc : n ≠ .connection := by
    rcases hn with rfl | rfl <;> decide
  rw [eq_nextHead_of_sendHeaders (x := x.withPending _) hs h]
  exact getAll_nextHead hc _

/-!
## Bodies sent in one piece
-/

theorem sent_sendPayload (x : Exchange) (payload : Bytes) (withBody : Bool) :
    (x.sendPayload payload withBody).2.sent =
      (x.withPending (·.insert .contentLength (.ofNat payload.length))).sendHeaders.2.sent := by
  unfold sendPayload
  simp only
  generalize (x.withPending (·.insert .contentLength (.ofNat payload.length))).sendHeaders = r
  refine Attempt.andThen_preserves (P := fun y : Exchange => y.sent = r.2.sent) ?_ ?_
  · rw [Attempt.snd_mapError]
  · intro _ y _ hy
    split
    · exact hy
    · split
      · exact hy
      · refine Attempt.andThen_preserves (P := fun y : Exchange => y.sent = r.2.sent) ?_ ?_
        · rw [Attempt.snd_mapError]
          exact hy
        · intro _ z _ hz
          rw [Attempt.snd_mapError]
          exact hz

theorem getAll_sendPayload (hs : x.headersSent = false) {payload : Bytes} {withBody : Bool}
    (h : (x.sendPayload payload withBody).2.sent = some head) {n : FieldName}
    (hn : n = .contentEncoding ∨ n = .vary) : head.headers.getAll n = x.pending.getAll n := by
  rw [sent_sendPayload] at h
  have hne : n ≠ .connection ∧ .contentLength ≠ n := by
    rcases hn with rfl | rfl <;> decide
  rw [eq_nextHead_of_sendHeaders (x := x.withPending _) hs h, getAll_nextHead hne.1]
  exact (Headers.getAll_insert _ _ _ _).trans (if_neg hne.2)

theorem decidedBy_sendBody (hs : x.headersSent = false) {coder : Coder} {body : Bytes}
    {withBody : Bool} (h : (x.sendBody coder settings body withBody).2.sent = some head) :
    head.DecidedBy settings x (if withBody then some body.length else none) := by
  unfold sendBody at h
  cases withBody with
  | false =>
      rw [Bool.not_false, if_pos rfl, sent_sendPayload] at h
      exact decidedBy_length hs h
  | true =>
      simp only [Bool.not_true, Bool.false_eq_true, if_false] at h
      intro n hn
      generalize settings.choose x.request.headers x.pending body.length = coding at h ⊢
      cases coding with
      | none => exact getAll_sendPayload (x := x.withPending (·.withCoding settings none)) hs h hn
      | some c =>
          exact getAll_sendPayload
            (x := (x.withPending (·.withCoding settings (some c))).report _) hs h hn

end Exchange

namespace ResponseStream

variable {s : ResponseStream} {x y : Exchange} {head : ResponseHead}

/-!
## Bodies sent piece by piece
-/

inductive Action where
  /-- Writes as much of a piece as is accepted at once. -/
  | write (b : Bytes)
  | writeAll (b : Bytes)
  | flush
  | finish
  | drop
deriving DecidableEq, Repr

def act (s : ResponseStream) (x : Exchange) : Action → ResponseStream × Exchange
  | .write b => (s.write x b).2
  | .writeAll b => (s.writeAll x b).2
  | .flush => (s.flush x).2
  | .finish => (s.finish x).2
  | .drop => s.drop x

def actAll (s : ResponseStream) (x : Exchange) : List Action → ResponseStream × Exchange
  | [] => (s, x)
  | a :: as => actAll (s.act x a).1 (s.act x a).2 as

/-- The size that the coding is chosen for: that of the first piece that is not empty, unless the
stream has been ended before. -/
def decidingSize? : List Action → Option Nat
  | [] => none
  | .write b :: as | .writeAll b :: as => if b = [] then decidingSize? as else some b.length
  | .flush :: as => decidingSize? as
  | .finish :: _ | .drop :: _ => none

theorem fits_drop (s : ResponseStream) (x : Exchange) : (s.drop x).1.Fits (s.drop x).2 := by
  refine fits_of_closed ?_
  unfold drop isClosed
  split
  · next h => exact of_decide_eq_true h
  · unfold finish settle
    generalize s.endSink x = r
    obtain ⟨e | ⟨⟩, y⟩ := r <;> rfl

theorem carries_act (h : s.Fits x) (a : Action) : Carries x (s.act x a) := by
  cases a with
  | write b => exact carries_write h b
  | writeAll b => exact carries_writeAll h b
  | flush => exact carries_flush h
  | finish => exact carries_finish h
  | drop => exact ⟨moves_drop h, s.fits_drop x⟩

theorem moves_actAll (h : s.Fits x) (as : List Action) : x.Moves (s.actAll x as).2 := by
  induction as generalizing s x with
  | nil => exact .refl
  | cons a as ih =>
      obtain ⟨hm, hf⟩ := carries_act h a
      exact hm.trans (ih hf)

theorem sent_start (s : ResponseStream) (x : Exchange) (size : Nat) :
    (s.start x size).2.2 = (x.withPending (·.withCoding s.settings
      (s.settings.choose x.request.headers x.pending size))).sendHeaders.2 := by
  unfold start
  simp only
  generalize Exchange.sendHeaders _ = r
  obtain ⟨e | ⟨⟩, y⟩ := r <;> rfl

/-- The first piece that is not empty sends the head, and the rest of the call does not
change it. -/
theorem sent_write (hf : s.Fits x) (hs : s.sink = .pending) {b : Bytes} (hb : b ≠ []) :
    (s.write x b).2.2.Settled ∧ (s.write x b).2.2.sent = (x.withPending (·.withCoding s.settings
      (s.settings.choose x.request.headers x.pending b.length))).sendHeaders.2.sent := by
  obtain ⟨-, hfits⟩ := carries_start (s := s) (hf.headersSent_eq_false hs) b.length
  have hstart := s.sent_start x b.length
  have hsettled : (s.start x b.length).2.2.Settled := hstart ▸ Exchange.settled_sendHeaders _
  have hm : (s.start x b.length).2.2.Moves (s.write x b).2.2 := by
    rw [write, if_neg hb, if_pos hs]
    refine Attempt.andThen_preserves
      (P := fun t : ResponseStream × Exchange => (s.start x b.length).2.2.Moves t.2) .refl ?_
    intro _ t ht hmt
    rw [ht] at hfits ⊢
    exact (carries_push hfits b).1
  rw [← hstart]
  have hsent := hm.sent_eq_of_settled hsettled
  refine ⟨hsettled.imp (fun h => hm.headersSent_mono h) (fun h => hm.frame.2.2.1.trans h), hsent⟩

theorem sent_writeAll (hf : s.Fits x) (hs : s.sink = .pending) {b : Bytes} (hb : b ≠ []) :
    (s.writeAll x b).2.2.Settled ∧
      (s.writeAll x b).2.2.sent =
        (x.withPending (·.withCoding s.settings
          (s.settings.choose x.request.headers x.pending b.length))).sendHeaders.2.sent := by
  obtain ⟨hsettled, hsent⟩ := sent_write hf hs hb
  obtain ⟨-, hfits⟩ := carries_write hf b
  have hm : (s.write x b).2.2.Moves (s.writeAll x b).2.2 := by
    unfold writeAll
    rw [if_neg hb]
    generalize s.write x b = r at hfits ⊢
    obtain ⟨e | _ | n, t⟩ := r
    · exact .refl
    · exact .refl
    · exact (carries_writeAll hfits _).1
  exact ⟨hsettled.imp (fun h => hm.headersSent_mono h) (fun h => hm.frame.2.2.1.trans h),
    (hm.sent_eq_of_settled hsettled).trans hsent⟩

theorem settle_of_closed {α : Type} (hs : s.sink = .closed) (r : Attempt Exchange IoError α) :
    (s.settle r).2.2 = r.2 ∨ ∃ e, (s.settle r).2.2 = r.2.report e := by
  obtain ⟨e | a, y⟩ := r
  · have hclosed : ({ s with failed := true } : ResponseStream).sink = .closed := hs
    unfold settle fail abandon
    simp only [hs]
    split
    · exact .inl rfl
    · exact .inr ⟨_, rfl⟩
  · exact .inl rfl

theorem sent_finish (hx : x.headersSent = false) (hs : s.sink = .pending) :
    (s.finish x).2.2.Settled ∧ (s.finish x).2.2.sent =
      (x.withPending (·.insert .contentLength (.ofNat 0))).sendHeaders.2.sent := by
  have hend :
      (s.endSink x).2 = (x.withPending (·.insert .contentLength (.ofNat 0))).sendHeaders.2 := by
    unfold endSink
    rw [hs]
    dsimp only
    rw [if_neg (Bool.eq_false_iff.1 hx), Attempt.snd_mapError]
  have hsettled := Exchange.settled_sendHeaders (x.withPending (·.insert .contentLength (.ofNat 0)))
  rw [← hend] at hsettled ⊢
  obtain h | ⟨e, h⟩ := settle_of_closed (s := { s with sink := .closed }) rfl (s.endSink x)
  · rw [finish, h]
    exact ⟨hsettled, rfl⟩
  · rw [finish, h]
    exact ⟨hsettled, rfl⟩

theorem sent_drop (hx : x.headersSent = false) (hs : s.sink = .pending) :
    (s.drop x).2.Settled ∧ (s.drop x).2.sent =
      (x.withPending (·.insert .contentLength (.ofNat 0))).sendHeaders.2.sent := by
  have hopen : s.isClosed = false := by
    rw [isClosed, hs]
    rfl
  obtain ⟨hsettled, hsent⟩ := sent_finish hx hs
  rw [← hsent]
  unfold drop
  rw [if_neg (Bool.eq_false_iff.1 hopen)]
  generalize s.finish x = r at hsettled
  obtain ⟨e | ⟨⟩, t⟩ := r
  · exact ⟨hsettled, rfl⟩
  · exact ⟨hsettled, rfl⟩

/-- An action on a new stream does nothing, or it sends the head, and the size that decides is
known. -/
theorem act_of_pending (hf : s.Fits x) (hs : s.sink = .pending) (a : Action) :
    (s.act x a = (s, x) ∧ ∀ as, decidingSize? (a :: as) = decidingSize? as) ∨
      (s.act x a).2.Settled ∧ ∀ as head, (s.act x a).2.sent = some head →
        head.DecidedBy s.settings x (decidingSize? (a :: as)) := by
  have hx := hf.headersSent_eq_false hs
  cases a with
  | write b =>
      by_cases hb : b = []
      · refine .inl ⟨?_, fun as => if_pos hb⟩
        rw [act, write, if_pos hb]
      · obtain ⟨hsettled, hsent⟩ := sent_write hf hs hb
        refine .inr ⟨hsettled, fun as head h => ?_⟩
        rw [decidingSize?, if_neg hb]
        exact Exchange.decidedBy_withCoding hx (hsent.symm.trans h)
  | writeAll b =>
      by_cases hb : b = []
      · refine .inl ⟨?_, fun as => if_pos hb⟩
        rw [act, writeAll, if_pos hb]
      · obtain ⟨hsettled, hsent⟩ := sent_writeAll hf hs hb
        refine .inr ⟨hsettled, fun as head h => ?_⟩
        rw [decidingSize?, if_neg hb]
        exact Exchange.decidedBy_withCoding hx (hsent.symm.trans h)
  | flush =>
      refine .inl ⟨?_, fun as => rfl⟩
      rw [act, flush, hs]
  | finish =>
      obtain ⟨hsettled, hsent⟩ := sent_finish hx hs
      exact .inr ⟨hsettled, fun as head h => Exchange.decidedBy_length hx (hsent.symm.trans h)⟩
  | drop =>
      obtain ⟨hsettled, hsent⟩ := sent_drop hx hs
      exact .inr ⟨hsettled, fun as head h => Exchange.decidedBy_length hx (hsent.symm.trans h)⟩

/-- Whatever is done to a new stream, the head that is sent in the end was decided by the first
piece that is not empty. -/
theorem decidedBy_actAll (hf : s.Fits x) (hs : s.sink = .pending) (as : List Action)
    (h : (s.actAll x as).2.sent = some head) : head.DecidedBy s.settings x (decidingSize? as) := by
  induction as with
  | nil =>
      rw [actAll, Exchange.sent_eq_none (hf.headersSent_eq_false hs)] at h
      cases h
  | cons a as ih =>
      rw [actAll] at h
      obtain ⟨hact, hsize⟩ | ⟨hsettled, hdecided⟩ := act_of_pending hf hs a
      · rw [hact] at h
        rw [hsize]
        exact ih h
      · -- what is sent by the action that decides is there in the end
        have hm := moves_actAll (carries_act hf a).2 as
        exact hdecided as head ((hm.sent_eq_of_settled hsettled).symm.trans h)

end ResponseStream

/-!
## Answers to two clients
-/

/-- How a body is sent: as a whole, or written to a stream. -/
inductive Sending where
  | whole (body : Bytes) (withBody : Bool)
  | pieces (as : List ResponseStream.Action)
deriving DecidableEq, Repr

def Sending.size? : Sending → Option Nat
  | .whole body withBody => if withBody then some body.length else none
  | .pieces as => ResponseStream.decidingSize? as

namespace Exchange

variable {x y : Exchange} {settings : CompressionSettings} {coder : Coder}
    {head head' : ResponseHead}

def send (x : Exchange) (coder : Coder) (settings : CompressionSettings) : Sending → Exchange
  | .whole body withBody => (x.sendBody coder settings body withBody).2
  | .pieces as => (({ coder, settings } : ResponseStream).actAll x as).2

theorem decidedBy_send (hs : x.headersSent = false) (w : Sending)
    (h : (x.send coder settings w).sent = some head) : head.DecidedBy settings x w.size? := by
  cases w with
  | whole body withBody => exact decidedBy_sendBody hs h
  | pieces as =>
      exact ResponseStream.decidedBy_actAll (s := { coder, settings }) hs rfl as h

/-- Two clients that are answered with the same fields and with bodies of the same size, each
in its own manner, are sent the same coding, or heads that say that the coding depends on what
is offered. -/
theorem keptApart_send (hx : x.headersSent = false) (hy : y.headersSent = false)
    (hp : y.pending = x.pending) {w w' : Sending} (hsize : w'.size? = w.size?)
    (h : (x.send coder settings w).sent = some head)
    (h' : (y.send coder settings w').sent = some head') :
    head.KeptApart head' x.request.headers y.request.headers :=
  keptApart_of_decidedBy hp (decidedBy_send hx w h) (hsize ▸ decidedBy_send hy w' h')

def listing : Headers := Headers.empty.insert .vary (.ofString "Origin, ACCEPT-Encoding")

/-- The client that offers a coding is sent it, and another one, to which the same is written in
pieces, is not. Both heads say that this depends on the offer, and a cache does not give the answer
to the one to the other. -/
theorem keptApart_send_unpacking :
    let x := ResponseStream.unpacking.withPending fun _ => listing
    let y := { x with request := { method := .get, path := "/" } }
    let w := Sending.whole (Text.encode "hello, world") true
    let w' :=
      Sending.pieces [.write [], .flush, .writeAll (Text.encode "HELLO, WORLD"), .write [33], .drop]
    x.headersSent = false ∧ y.headersSent = false ∧ y.pending = x.pending ∧ w'.size? = w.size? ∧
      ∃ head head', (x.send .standard ResponseStream.lightly w).sent = some head ∧
        (y.send .standard ResponseStream.lightly w').sent = some head' ∧
        head.headers.getAll .contentEncoding = [Coding.gzip.fieldValue] ∧
        head'.headers.getAll .contentEncoding = [] ∧
        head.KeptApart head' x.request.headers y.request.headers := by
  intro x y w w'
  have hsize : w'.size? = w.size? := by decide +kernel
  have hsent : (x.send .standard ResponseStream.lightly w).sent.map
      (·.headers.getAll .contentEncoding) = some [Coding.gzip.fieldValue] := by decide +kernel
  have hsent' : (y.send .standard ResponseStream.lightly w').sent.map
      (·.headers.getAll .contentEncoding) = some [] := by decide +kernel
  obtain ⟨head, h, hcoding⟩ := Option.map_eq_some_iff.1 hsent
  obtain ⟨head', h', hcoding'⟩ := Option.map_eq_some_iff.1 hsent'
  exact ⟨rfl, rfl, rfl, hsize, head, head', h, h', hcoding,
    hcoding', keptApart_send rfl rfl rfl hsize h h'⟩

end Exchange

end HttpDispatch
