import HttpDispatch.Coding.Coder
import HttpDispatch.Exchange.Basic
import HttpDispatch.Category

/-!
# Bodies sent in one piece

A body that is known as a whole is sent with its exact length. The answer to a request for the head
only carries the length of the body that is not sent.
-/

namespace HttpDispatch.Exchange

/-- Sends the head with the length of the payload, and the payload if there is a body. -/
def sendPayload (x : Exchange) (payload : Bytes) (withBody : Bool) :
    Attempt Exchange DispatchError Unit :=
  let x := x.withPending (·.insert .contentLength (.ofNat payload.length))
  (x.sendHeaders.mapError .exchange).andThen fun _ x =>
    if !withBody || payload.isEmpty then (.ok (), x)
    else match x.output with
      | .error e => (.error (.exchange e), x)
      | .ok () =>
        ((x.writeAll payload).mapError .io).andThen fun _ x => x.flush.mapError .io

/-- Sends a whole body, compressed if it is worth it. Without a body only the head is sent, and no
coding is chosen. -/
def sendBody (x : Exchange) (coder : Coder) (settings : CompressionSettings) (body : Bytes)
    (withBody : Bool) : Attempt Exchange DispatchError Unit :=
  if !withBody then x.sendPayload body false
  else
    let coding := settings.choose x.request.headers x.pending body.length
    let x := x.withPending (·.withCoding settings coding)
    match coding with
    | none => x.sendPayload body true
    | some c =>
      let payload := coder.encodeAll c settings.level body
      (x.report (.bodyCompressed c.name body.length payload.length)).sendPayload payload true

end HttpDispatch.Exchange
