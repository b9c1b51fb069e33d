import HttpDispatch.Connection.Line
import HttpDispatch.Exchange.Basic
import HttpDispatch.Exchange.Target

/-!
# Request heads

Reading a request from a connection: the request line, the header fields, and the blank line after
which the body begins. Only a declared length delimits a body. Everything is bounded: the lines,
their number, and the length that may be declared.
-/

namespace HttpDispatch

structure RequestLimits where
  maxLine : Nat := 8 * 1024
  maxHeaders : Nat := 64
  maxBody : Nat := 16 * 1024 * 1024
deriving DecidableEq, Repr

inductive HeadFault where
  | method
  | noTarget
  | version
  | trailing
  | target
  | endsInHeaders
  | noColon
  | fieldName
  | fieldValue
  | contentLength
  | unterminated
  | notText
deriving DecidableEq, Repr

def HeadFault.message : HeadFault → String
  | method => "invalid method"
  | noTarget => "missing target"
  | version => "unsupported protocol version"
  | trailing => "trailing data in request line"
  | target => "invalid request target"
  | endsInHeaders => "connection closed inside headers"
  | noColon => "header without colon"
  | fieldName => "invalid header name"
  | fieldValue => "invalid header value"
  | contentLength => "invalid content-length"
  | unterminated => "unterminated line"
  | notText => "non UTF-8 request head"

inductive RequestError where
  | eof
  | lineTooLong (max : Nat)
  | tooManyHeaders (max : Nat)
  | bodyTooLarge (length : Nat)
  | unsupportedEncoding
  | malformed (fault : HeadFault)
  | io (cause : IoError)
deriving DecidableEq, Repr

namespace RequestError

def message : RequestError → String
  | eof => "connection closed before a request was received"
  | lineTooLong max => "request line or header exceeds " ++ toString max ++ " bytes"
  | tooManyHeaders max => "more than " ++ toString max ++ " request headers"
  | bodyTooLarge n => "request body of " ++ toString n ++ " bytes exceeds the limit"
  | unsupportedEncoding => "unsupported transfer encoding"
  | malformed fault => "malformed request: " ++ fault.message
  | io cause => "I/O error reading request: " ++ cause.message

/-- The status that answers a request which could not be read; some are not answered at all. -/
def status? : RequestError → Option Status
  | eof | io _ => none
  | lineTooLong _ | tooManyHeaders _ => some .headerFieldsTooLarge
  | bodyTooLarge _ => some .payloadTooLarge
  | unsupportedEncoding => some .notImplemented
  | malformed _ => some .badRequest

end RequestError

structure RequestHead where
  method : Method
  target : Target
  version : Version
  headers : Headers
  contentLength : Nat

namespace RequestHead

def version? (s : String) : Option Version :=
  if s = "HTTP/1.1" then some .http11 else if s = "HTTP/1.0" then some .http10 else none

def readWords : List String → Except HeadFault (Method × Target × Version)
  | [] => .error .method
  | m :: words =>
    match Method.ofString? m with
    | none => .error .method
    | some method =>
      match words with
      | [] => .error .noTarget
      | [_] => .error .version
      | t :: v :: more =>
        match version? v with
        | none => .error .version
        | some version =>
          if !more.isEmpty then .error .trailing
          else match Target.ofString? t with
            | none => .error .target
            | some target => .ok (method, target, version)

def readRequestLine (line : String) : Except HeadFault (Method × Target × Version) :=
  readWords ((Text.split ' ' line).filter (· ≠ ""))

def readField (line : String) : Except HeadFault (FieldName × FieldValue) :=
  match Text.cut ':' line with
  | none => .error .noColon
  | some (name, value) =>
    match FieldName.ofString? (Text.trim name) with
    | none => .error .fieldName
    | some n =>
      match FieldValue.ofString? (Text.trim value) with
      | none => .error .fieldValue
      | some v => .ok (n, v)

def declaredLength (h : Headers) : Except HeadFault Nat :=
  match h.get? .contentLength with
  | none => .ok 0
  | some v =>
    match v.text?.bind fun s => Numeral.word? (Text.trim s) with
    | some n => .ok n
    | none => .error .contentLength

/-- Reads a line of a head. At the end of the bytes there is no line. -/
def readLine (r : Reader) (max : Nat) : Attempt Reader RequestError (Option String) :=
  match r.readLine max with
  | (.error e, r) => (.error (.io e), r)
  | (.ok .none, r) => (.ok none, r)
  | (.ok (.text s), r) => (.ok (some s), r)
  | (.ok .tooLong, r) => (.error (.lineTooLong max), r)
  | (.ok .unterminated, r) => (.error (.malformed .unterminated), r)
  | (.ok .notText, r) => (.error (.malformed .notText), r)

theorem length_rest_lt_of_readLine {r r' : Reader} {max : Nat} {s : String}
    (h : readLine r max = (.ok (some s), r')) : r'.rest.length < r.rest.length := by
  unfold readLine at h
  split at h <;> cases h
  next h => exact Reader.length_rest_lt_of_readLine h

/-- Reads the request line, passing over blank lines before it. -/
def readStart (r : Reader) (max : Nat) : Attempt Reader RequestError String :=
  match _h : readLine r max with
  | (.error e, r) => (.error e, r)
  | (.ok none, r) => (.error .eof, r)
  | (.ok (some line), r) => if line = "" then readStart r max else (.ok line, r)
termination_by r.rest.length
decreasing_by exact length_rest_lt_of_readLine (by assumption)

def readFields (r : Reader) (limits : RequestLimits) (headers : Headers) :
    Attempt Reader RequestError Headers :=
  match _h : readLine r limits.maxLine with
  | (.error e, r) => (.error e, r)
  | (.ok none, r) => (.error (.malformed .endsInHeaders), r)
  | (.ok (some line), r) =>
    if line = "" then (.ok headers, r)
    else if limits.maxHeaders ≤ headers.size then (.error (.tooManyHeaders limits.maxHeaders), r)
    else match readField line with
      | .error fault => (.error (.malformed fault), r)
      | .ok (n, v) => readFields r limits (headers.append n v)
termination_by r.rest.length
decreasing_by exact length_rest_lt_of_readLine (by assumption)

/-- The head that has the given first line and fields, if its body can be delimited. -/
def assemble (limits : RequestLimits) (start : Method × Target × Version) (headers : Headers) :
    Except RequestError RequestHead :=
  if headers.contains .transferEncoding then .error .unsupportedEncoding
  else match declaredLength headers with
    | .error fault => .error (.malformed fault)
    | .ok contentLength =>
      if limits.maxBody < contentLength then .error (.bodyTooLarge contentLength)
      else
        .ok { method := start.1, target := start.2.1, version := start.2.2, headers, contentLength }

def read (r : Reader) (limits : RequestLimits) : Attempt Reader RequestError RequestHead :=
  (readStart r limits.maxLine).andThen fun line r =>
    match readRequestLine line with
    | .error fault => (.error (.malformed fault), r)
    | .ok start =>
      (readFields r limits .empty).andThen fun headers r => (assemble limits start headers, r)

def request (h : RequestHead) (remote : Option SocketAddress) : Request where
  method := h.method
  path := h.target.path
  query := h.target.query
  version := h.version
  headers := h.headers
  remote

end RequestHead

/-- The exchange that a connection carries: its request is read from `source`, and its response goes
to `out`. The head that was read is kept beside it. -/
def Exchange.accept (source : Source) (out : Writer) (remote : Option SocketAddress)
    (limits : RequestLimits) : Except RequestError (RequestHead × Exchange) :=
  match RequestHead.read { source } limits with
  | (.error e, _) => .error e
  | (.ok head, reader) =>
    .ok (head, { transport := .wire, request := head.request remote,
                 body := .bounded head.contentLength reader, out })

def rejection (s : Status) : Bytes :=
  Text.encode ("HTTP/1.1 " ++ toString s.code ++ " " ++ s.reason ++
    "\r\ncontent-type: text/plain; charset=utf-8\r\ncontent-length: " ++
    toString s.reason.utf8ByteSize ++ "\r\nconnection: close\r\n\r\n" ++ s.reason)

def Writer.reject (w : Writer) (s : Status) : Attempt Writer IoError Unit :=
  Attempt.andThen (w.writeAll (rejection s)) fun _ w => w.flush

end HttpDispatch
