import HttpDispatch.Context.Basic
import HttpDispatch.Stream.Range

/-!
# Serving ranges

The answer to a request for a resource that a source holds: all of it, the part that was asked for,
or the news that there is no such part. The source is moved to its place before anything is sent, so
that its failure can still be answered. Once the head has been sent, an answer that cannot be
completed is cut short.
-/

namespace HttpDispatch.Context

def unsatisfiable (total : Nat) : Response :=
  (({ status := .rangeNotSatisfiable } : Response).withField .acceptRanges .bytesUnit).withField
    .contentRange (.ofString ("bytes */" ++ toString total))

/-- Copies a part of the source to the exchange. A part that cannot be copied as a whole cuts the
response short. -/
def copyPart (c : Context) (status : Status) (source : Source) (length : Nat) :
    Attempt Context DispatchError Response :=
  let x := c.exchange
  match Copy.copyRange { source, out := x.out, log := x.log } length c.settings.range.chunkSize with
  | (result, copy) =>
    let c := c.onExchange fun x => { x with out := copy.out, log := copy.log }
    match result with
    | .error e => (.error (.io e), c)
    | .ok r =>
      let c := if r.completed then c else c.truncate
      (.ok .streamed, c.report (.rangeServed status r.written r.completed))

/-- Sends the head of a part, or of the whole, and copies it. -/
def sendPart (c : Context) (source : Source) (total : Nat) (mediaType : FieldValue)
    (range : Option ByteRange) : Attempt Context DispatchError Response :=
  let status : Status := if range.isSome then .partialContent else .ok
  let start := (range.map (·.first)).getD 0
  let length := (range.map (·.length)).getD total
  match source.seek start with
  | (.error e, _) => (.error (.io e), c)
  | (.ok (), source) =>
    (c.setStatus status).andThen fun _ c =>
    (c.setField .acceptRanges .bytesUnit).andThen fun _ c =>
    (c.setField .contentType mediaType).andThen fun _ c =>
    (c.setField .contentLength (.ofNat length)).andThen fun _ c =>
    (match range with
      | some r => c.setField .contentRange (.ofString (r.contentRange total))
      | none => (.ok (), c)).andThen fun _ c =>
    c.stamp.sendHeaders.andThen fun _ c =>
    if c.exchange.isHead || length = 0 then (.ok .streamed, c)
    else c.copyPart status source length

def serveRange (c : Context) (source : Source) (total : Nat) (contentType : String) :
    Attempt Context DispatchError Response :=
  let mediaType := (FieldValue.ofString? contentType).getD .octets
  let field := (c.exchange.request.headers.get? .range).bind FieldValue.text?
  match RangeRequest.read field total with
  | .unsatisfiable => (.ok (unsatisfiable total), c.report (.unsatisfiable total))
  | .full => c.sendPart source total mediaType none
  | .part r => c.sendPart source total mediaType (some r)

end HttpDispatch.Context
