import HttpDispatch.Config.Settings
import HttpDispatch.Http.Field

/-!
# Negotiation of content codings

Whether and how the body of a response is compressed, as a function of the request fields, the
response fields, the settings and the number of bytes that the first part of the body has. The
coding depends on what the client offers only where the response allows one at all, and a response
of that kind says so in its field `vary`, whatever the outcome.
-/

namespace HttpDispatch

inductive Coding where
  | gzip
  | deflate
deriving DecidableEq, Repr

namespace Coding

def name : Coding → String
  | gzip => "gzip"
  | deflate => "deflate"

def fieldValue (c : Coding) : FieldValue := .ofString c.name

/-- The coding that one item of an offer asks for; what follows a semicolon does not count. -/
def ofOffer? (item : String) : Option Coding :=
  let name := Text.trim (Text.before ';' item)
  if Text.sameLetters name "gzip" || Text.sameLetters name "x-gzip" || name = "*" then some gzip
  else if Text.sameLetters name "deflate" then some deflate
  else none

def negotiate (offer : String) : Option Coding := (Text.split ',' offer).findSome? ofOffer?

end Coding

def Headers.texts (h : Headers) (n : FieldName) : List String :=
  (h.getAll n).filterMap FieldValue.text?

namespace CompressionSettings

/-- The families of media types that are compressed already. -/
def packedFamilies : List String := ["image/", "audio/", "video/"]

/-- Whether bodies of a media type are worth compressing. A body of no known type is. -/
def isCompressible (s : CompressionSettings) : Option String → Bool
  | none => true
  | some contentType =>
    let media := Text.lower (Text.trim (Text.before ';' contentType))
    if s.allowedTypes.any (Text.sameLetters · media) then true
    else if packedFamilies.any fun f => (Text.dropStart? f media).isSome then false
    else !s.excludedTypes.any (Text.sameLetters · media)

def isNegotiable (s : CompressionSettings) (response : Headers) : Bool :=
  s.enabled && !response.contains .contentEncoding &&
    s.isCompressible ((response.get? .contentType).bind FieldValue.text?)

def choose (s : CompressionSettings) (request response : Headers) (size : Nat) : Option Coding :=
  if size < s.minSize || !s.isNegotiable response then none
  else (request.texts .acceptEncoding).findSome? Coding.negotiate

end CompressionSettings

def namesAcceptEncoding (value : String) : Bool :=
  (Text.split ',' value).any fun item => Text.sameLetters (Text.trim item) "accept-encoding"

/-- With the field `accept-encoding` among those that the response depends on. -/
def Headers.addVary (h : Headers) : Headers :=
  if (h.texts .vary).any namesAcceptEncoding then h else h.append .vary .acceptEncoding

def Headers.withCoding (h : Headers) (s : CompressionSettings) (coding : Option Coding) : Headers :=
  let h := if s.isNegotiable h then h.addVary else h
  match coding with
  | none => h
  | some c => (h.insert .contentEncoding c.fieldValue).erase .contentLength

end HttpDispatch
