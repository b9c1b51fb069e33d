import HttpDispatch.Context.Range
import HttpDispatch.Proofs.Context.Commit
import HttpDispatch.Proofs.Stream.Range

/-!
# What is served of a resource

Serving a resource, or a part of it, announces the part in the head and then copies it
(`Context.sendPart_eq`). Whatever fails after the head was due, what arrives is a beginning of what
was announced; and unless the response counts as cut short, it is all of it (`Context.Serves`).
-/

namespace HttpDispatch

def Exchange.rangeRequest (x : Exchange) (total : Nat) : RangeRequest :=
  RangeRequest.read ((x.request.headers.get? .range).bind FieldValue.text?) total

structure Exchange.Awaits (x : Exchange) : Prop where
  closed : x.closed = false
  headersSent : x.headersSent = false
  wanted : x.isHead = false

namespace Context

open Exchange Attempt

variable {c : Context} {x : Exchange} {head : ResponseHead} {source : Source} {total length : Nat}
  {mediaType : FieldValue}

theorem serveRange_eq (c : Context) (source : Source) (total : Nat) (contentType : String) :
    c.serveRange source total contentType =
      match c.exchange.rangeRequest total with
      | .unsatisfiable => (.ok (unsatisfiable total), c.report (.unsatisfiable total))
      | .full => c.sendPart source total ((FieldValue.ofString? contentType).getD .octets) none
      | .part r =>
          c.sendPart source total ((FieldValue.ofString? contentType).getD .octets) (some r) :=
  rfl

/-- What has come of serving `length` bytes, of which the source holds `slice`, behind a head. -/
structure Serves (x : Exchange) (head : ResponseHead) (slice : Bytes) (length : Nat)
    (r : Attempt Context DispatchError Response) : Prop where
  begins : x.Begins head slice r.2.exchange
  streamed : ∀ a, r.1 = .ok a → a = .streamed
  completes : ∀ a, r.1 = .ok a → r.2.truncated = false →
    x.Sends head slice r.2.exchange ∧ slice.length = length

theorem serves_copyPart (h : x.Sends head [] c.exchange) (status : Status) (source : Source)
    (length : Nat) :
    Serves x head (source.rest.take length) length (c.copyPart status source length) := by
  obtain ⟨b, hb, hwritten, hdone⟩ := Copy.delivers_run
    { source, out := c.exchange.out, log := c.exchange.log } length
      (c.settings.range.chunkSize - 1) length 0
  unfold copyPart Copy.copyRange
  dsimp only
  generalize Copy.run _ _ _ _ _ = r at hwritten hdone ⊢
  obtain ⟨e | result, copy⟩ := r
  · exact ⟨h.begins_append rfl hb hwritten, fun _ hok => (by cases hok),
      fun _ hok => (by cases hok)⟩
  · cases hcompleted : result.completed with
    | false =>
        dsimp only
        rw [hcompleted, if_neg (by decide)]
        refine ⟨h.begins_append rfl hb hwritten, ?_, ?_⟩
        · rintro a ⟨⟩
          rfl
        · rintro a - ⟨⟩
    | true =>
        dsimp only
        rw [hcompleted, if_pos rfl]
        obtain ⟨hall, hlength⟩ := hdone result rfl hcompleted
        rw [hall] at hwritten hlength
        refine ⟨h.begins_append rfl List.prefix_rfl hwritten,
          ?_, fun _ _ _ => ⟨h.append rfl hwritten, hlength⟩⟩
        rintro a ⟨⟩
        rfl

theorem copyPart_of_reliable (hw : c.exchange.out.limit = none)
    (hf : c.exchange.out.flushFailure = none) (status : Status)
    (hlen : length ≤ source.rest.length) :
    (c.copyPart status source length).1 = .ok .streamed ∧
      (c.copyPart status source length).2.truncated = c.truncated := by
  have hrun :=
    Copy.run_of_reliable { source, out := c.exchange.out, log := c.exchange.log } hw hf length
    (c.settings.range.chunkSize - 1) length 0 hlen
  unfold copyPart Copy.copyRange
  dsimp only
  generalize Copy.run _ _ _ _ _ = r at hrun ⊢
  obtain ⟨result, copy⟩ := r
  cases hrun
  exact ⟨rfl, rfl⟩

def partStatus (range : Option ByteRange) : Status := if range.isSome then .partialContent else .ok

def partBounds (total : Nat) (range : Option ByteRange) : Nat × Nat :=
  ((range.map (·.first)).getD 0, (range.map (·.length)).getD total)

def partFields (c : Context) (total : Nat) (mediaType : FieldValue) (range : Option ByteRange) :
    Headers :=
  let fields :=
    ((c.exchange.pending.insert .acceptRanges .bytesUnit).insert .contentType mediaType).insert
    .contentLength (.ofNat (partBounds total range).2)
  (match range with
    | some r => fields.insert .contentRange (.ofString (r.contentRange total))
    | none => fields).insertNew .requestId c.id.fieldValue

theorem setField_of_pending (hs : c.exchange.headersSent = false) (n : FieldName) (v : FieldValue) :
    c.setField n v = (.ok (), c.onExchange (·.withPending (·.insert n v))) :=
  if_neg (Bool.eq_false_iff.1 hs)

/-- Everything that a part is announced with is pending when its head is sent. -/
theorem sendPart_eq (hs : c.exchange.headersSent = false) (hseek : source.seekFailure = none)
    (range : Option ByteRange) :
    c.sendPart source total mediaType range =
      (c.answering (partStatus range) (c.partFields total mediaType range)).sendHeaders.andThen
        fun _ c' =>
          if c'.exchange.isHead || (partBounds total range).2 = 0 then (.ok .streamed, c')
          else c'.copyPart (partStatus range) { source with position := (partBounds total range).1 }
            (partBounds total range).2 := by
  have hsought : ∀ position, source.seek position = (.ok (), { source with position }) := by
    intro position
    rw [Source.seek, hseek]
  unfold sendPart
  dsimp only
  rw [hsought]
  dsimp only
  rw [setStatus_of_pending hs, andThen_ok, setField_of_pending (by exact hs), andThen_ok,
    setField_of_pending (by exact hs), andThen_ok, setField_of_pending (by exact hs), andThen_ok]
  cases range with
  | none => rfl
  | some r =>
      dsimp only
      rw [setField_of_pending (by exact hs)]
      rfl

def partHead (c : Context) (total : Nat) (mediaType : FieldValue) (range : Option ByteRange) :
    ResponseHead :=
  c.head (partStatus range) (c.partFields total mediaType range)

/-- The head is sent, and then the part is copied; whichever fails, the part has only been begun. -/
theorem serves_sendPart (h : c.exchange.Awaits) (hseek : source.seekFailure = none) (total : Nat)
    (mediaType : FieldValue) (range : Option ByteRange) :
    Serves c.exchange (c.partHead total mediaType range)
      ((source.data.drop (partBounds total range).1).take (partBounds total range).2)
      (partBounds total range).2 (c.sendPart source total mediaType range) := by
  have hsend := begins_sendHeaders
    (x := (c.answering (partStatus range) (c.partFields total mediaType range)).exchange)
    h.closed h.headersSent
  obtain ⟨out, n, heq, -⟩ := exists_sendHeaders
    (x := (c.answering (partStatus range) (c.partFields total mediaType range)).exchange)
    h.closed h.headersSent
  rw [sendPart_eq h.headersSent hseek, sendHeaders, attempt]
  generalize partBounds total range = bounds
  generalize Exchange.sendHeaders _ = r at hsend heq ⊢
  obtain ⟨start, length⟩ := bounds
  obtain ⟨e | ⟨⟩, y⟩ := r
  · have hbegins : c.exchange.Begins (c.partHead total mediaType range) [] y :=
      ⟨hsend.moves.sent, hsend.moves.written⟩
    exact ⟨hbegins.mono List.nil_prefix, fun _ hok => (by cases hok), fun _ hok => (by cases hok)⟩
  · have hsends : c.exchange.Sends (c.partHead total mediaType range) [] y :=
      ⟨(hsend.post () rfl).sent, (hsend.post () rfl).written⟩
    have hhead : y.isHead = false := by
      rw [show y = _ from heq]
      exact h.wanted
    rw [inside, mapError, andThen_ok, hhead, Bool.false_or]
    dsimp only
    split
    · next hzero =>
      obtain rfl : length = 0 := of_decide_eq_true hzero
      rw [List.take_zero]
      refine ⟨hsends.begins, ?_, fun _ _ _ => ⟨hsends, rfl⟩⟩
      rintro a ⟨⟩
      rfl
    · exact serves_copyPart (c := { c.answering _ _ with exchange := y }) hsends (partStatus range)
        { source with position := start } length

theorem sendPart_of_works (hw : c.exchange.Works) (hseek : source.seekFailure = none) (total : Nat)
    (mediaType : FieldValue) (range : Option ByteRange)
    (hlen : (partBounds total range).1 + (partBounds total range).2 ≤ source.data.length) :
    (c.sendPart source total mediaType range).1 = .ok .streamed ∧
      (c.sendPart source total mediaType range).2.truncated = c.truncated := by
  have hready := ready_answering hw.toReady (partStatus range) (c.partFields total mediaType range)
  rw [sendPart_eq hw.headersSent hseek, sendHeaders, attempt, hready.sendHeaders_eq, inside,
    mapError, andThen_ok]
  split
  · exact ⟨rfl, rfl⟩
  · have hrest : (partBounds total range).2 ≤
        ({ source with position := (partBounds total range).1 } : Source).rest.length := by
      rw [Source.rest, List.length_drop]
      exact Nat.le_sub_of_add_le' hlen
    exact copyPart_of_reliable (by exact hw.limit) (by exact hw.flushFailure) _ hrest

theorem announces_partHead (c : Context) (total : Nat) (mediaType : FieldValue)
    (range : Option ByteRange) :
    (c.partHead total mediaType range).status = partStatus range ∧
      (c.partHead total mediaType range).headers.getAll .acceptRanges = [.bytesUnit] ∧
      (c.partHead total mediaType range).headers.getAll .contentLength =
        [.ofNat (partBounds total range).2] ∧
      (c.partHead total mediaType range).headers.getAll .contentRange =
        match range with
        | some r => [.ofString (r.contentRange total)]
        | none => c.exchange.pending.getAll .contentRange := by
  have hrl : FieldName.contentLength ≠ .acceptRanges := by decide
  have hrt : FieldName.contentType ≠ .acceptRanges := by decide
  have hrr : FieldName.contentRange ≠ .acceptRanges := by decide
  have hlr : FieldName.contentRange ≠ .contentLength := by decide
  have har : FieldName.acceptRanges ≠ .contentRange := by decide
  have htr : FieldName.contentType ≠ .contentRange := by decide
  have hir : FieldName.requestId ≠ .contentRange := by decide
  refine ⟨status_nextHead _, ?_, ?_, ?_⟩
  · rw [partHead, getAll_head (by decide)]
    unfold partFields
    cases range <;> simp [hrl, hrt, hrr]
  · rw [partHead, getAll_head (by decide)]
    unfold partFields
    cases range <;> simp [hlr]
  · rw [partHead, getAll_head (by decide)]
    unfold partFields
    cases range <;> simp [hlr.symm, har, htr, hir]

/-- A response whose body is sent in one piece may break off at any byte, too. -/
theorem begins_commit (h : c.exchange.Awaits) {r : Response} {body : Bytes}
    {usual : Option FieldValue} (he : r.body.Encodes c.codec body usual)
    (hb : r.status.permitsBody = true)
    {coding : Option Coding} (hcoding : c.chosen r usual body.length = coding) {payload : Bytes}
    (hpayload : c.coder.payload coding c.settings.compression.level body = payload)
    (hhead : c.head r.status (((c.responseFields r.headers usual).withCoding c.settings.compression
      coding).insert .contentLength (.ofNat payload.length)) = head) :
    c.exchange.Begins head payload (c.commit r).2.exchange ∧
      ((c.commit r).1 = .ok () → c.exchange.Sends head payload (c.commit r).2.exchange) ∧
      (c.commit r).2.truncated = c.truncated := by
  have hbody :=
    begins_sendBody (x := (c.answering r.status (c.responseFields r.headers usual)).exchange)
    h.closed h.headersSent c.coder c.settings.compression body hcoding hpayload hhead
  have hwhole :
      (!(c.answering r.status (c.responseFields r.headers usual)).exchange.isHead) = true := by
    change (!c.exchange.isHead) = true
    rw [h.wanted]
    rfl
  rw [commit_eq h.headersSent he, hb, if_pos rfl, attempt]
  rw [hwhole]
  exact ⟨⟨hbody.moves.sent, hbody.moves.written⟩,
    fun hok => ⟨(hbody.post () hok).sent, (hbody.post () hok).written⟩, rfl⟩

theorem announces_unsatisfiable (c : Context) (total : Nat) (coding : Option Coding)
    (length : Nat) :
    let head := c.head (unsatisfiable total).status
      (((c.responseFields (unsatisfiable total).headers none).withCoding c.settings.compression
        coding).insert .contentLength (.ofNat length))
    head.status = .rangeNotSatisfiable ∧ head.headers.getAll .acceptRanges = [.bytesUnit] ∧
      head.headers.getAll .contentLength = [.ofNat length] ∧
      head.headers.getAll .contentRange = [.ofString ("bytes */" ++ toString total)] := by
  have hra : FieldName.contentRange ≠ .acceptRanges := by decide
  refine ⟨status_nextHead _, ?_, ?_, ?_⟩
  · rw [getAll_head (by decide), Headers.getAll_insert, if_neg (by decide),
      Headers.getAll_withCoding_of_ne _ _ _ (by decide) (by decide) (by decide),
        getAll_responseFields]
    simp [prescribed, unsatisfiable, Response.withField, hra]
  · rw [getAll_head (by decide), Headers.getAll_insert, if_pos rfl]
  · rw [getAll_head (by decide), Headers.getAll_insert, if_neg (by decide),
      Headers.getAll_withCoding_of_ne _ _ _ (by decide) (by decide) (by decide),
        getAll_responseFields]
    simp [prescribed, unsatisfiable, Response.withField]

end Context

end HttpDispatch
