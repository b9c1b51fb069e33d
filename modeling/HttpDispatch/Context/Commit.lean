import HttpDispatch.Context.Basic
import HttpDispatch.Stream.Buffered

/-!
# Sending responses

A response is sent with its own status, and its header fields go before the pending ones of the same
names. A body that was written already only needs its head, if that has not been sent.
-/

namespace HttpDispatch

/-- The bytes of a body that is sent in one piece and its usual media type; `none` for a body that
was written already. -/
def Body.payload? (codec : Codec) : Body → Except CodecError (Option (Bytes × Option FieldValue))
  | empty => .ok (some ([], none))
  | bytes b => .ok (some (b, some .octets))
  | text s => .ok (some (Text.encode s, some .plainText))
  | json v => (codec.encode v).map fun b => some (b, some .json)
  | streamed => .ok none

namespace Context

/-- The pending header fields of a buffered response: those of the context, those of the response in
place of them, and a media type if there is none yet. -/
def responseFields (c : Context) (fields : Headers) (mediaType : Option FieldValue) : Headers :=
  let merged := (c.exchange.pending.insertNew .requestId c.id.fieldValue).merge fields
  match mediaType with
  | none => merged
  | some t => merged.insertNew .contentType t

def commitStreamed (c : Context) : Attempt Context DispatchError Unit :=
  if c.exchange.headersSent then (.ok (), c) else c.stamp.sendHeaders

def commitBuffered (c : Context) (status : Status) (fields : Headers) (body : Bytes)
    (mediaType : Option FieldValue) : Attempt Context DispatchError Unit :=
  (c.setStatus status).andThen fun _ c =>
    let c := c.onExchange (·.withPending fun _ => c.responseFields fields mediaType)
    if !status.permitsBody then
      (c.onExchange (·.withPending (·.erase .contentLength))).sendHeaders
    else
      c.attempt fun x => x.sendBody c.coder c.settings.compression body (!x.isHead)

def commit (c : Context) (r : Response) : Attempt Context DispatchError Unit :=
  match r.body.payload? c.codec with
  | .error e => (.error (.codec e), c)
  | .ok none => c.commitStreamed
  | .ok (some (body, mediaType)) => c.commitBuffered r.status r.headers body mediaType

end Context

end HttpDispatch
