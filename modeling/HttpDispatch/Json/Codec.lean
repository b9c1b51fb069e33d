import HttpDispatch.Error
import HttpDispatch.Json.Parser
import HttpDispatch.Json.Printer

/-!
# Codecs

How JSON bodies are written and read. An application may bring a codec of its own; the usual one
writes a value on one line or on many.
-/

namespace HttpDispatch

structure Codec where
  encode : Json → Except CodecError Bytes
  decode : Bytes → Except CodecError Json

namespace Codec

def standard (pretty : Bool) : Codec where
  encode v := .ok (Text.encode (v.print pretty))
  decode b := (Json.parse b).mapError .decode

end Codec

end HttpDispatch
