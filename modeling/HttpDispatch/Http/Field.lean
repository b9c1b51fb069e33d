import HttpDispatch.Http.Headers

/-!
# The header fields with a meaning of their own

The names of the fields that the library reads or writes, and the fixed values it writes.
-/

namespace HttpDispatch

namespace FieldName

def accept : FieldName := ⟨"accept", by decide⟩

def acceptEncoding : FieldName := ⟨"accept-encoding", by decide⟩

def acceptRanges : FieldName := ⟨"accept-ranges", by decide⟩

def cacheControl : FieldName := ⟨"cache-control", by decide⟩

def connection : FieldName := ⟨"connection", by decide⟩

def contentEncoding : FieldName := ⟨"content-encoding", by decide⟩

def contentLength : FieldName := ⟨"content-length", by decide⟩

def contentRange : FieldName := ⟨"content-range", by decide⟩

def contentType : FieldName := ⟨"content-type", by decide⟩

def range : FieldName := ⟨"range", by decide⟩

def requestId : FieldName := ⟨"x-request-id", by decide⟩

def transferEncoding : FieldName := ⟨"transfer-encoding", by decide⟩

def vary : FieldName := ⟨"vary", by decide⟩

def accelBuffering : FieldName := ⟨"x-accel-buffering", by decide⟩

end FieldName

namespace FieldValue

def bytesUnit : FieldValue := ofString "bytes"

def close : FieldValue := ofString "close"

def noCache : FieldValue := ofString "no-cache"

def no : FieldValue := ofString "no"

def acceptEncoding : FieldValue := ofString "Accept-Encoding"

def eventStream : FieldValue := ofString "text/event-stream"

def json : FieldValue := ofString "application/json"

def plainText : FieldValue := ofString "text/plain; charset=utf-8"

def html : FieldValue := ofString "text/html; charset=utf-8"

def octets : FieldValue := ofString "application/octet-stream"

end FieldValue

end HttpDispatch
