import HttpDispatch.Http.Status

/-!
# Failures

Everything that can go wrong between a request and its response, as causes; the wording of each is
one function. An error that carries its own status keeps it towards the client, every other one is
shown to the client as an internal error.
-/

namespace HttpDispatch

inductive IoError.Kind where
  | brokenPipe
  | other
deriving DecidableEq, Repr

structure IoError where
  kind : IoError.Kind
  message : String
deriving DecidableEq, Repr

namespace IoError

def other (message : String) : IoError := ⟨.other, message⟩

def peerClosed : IoError := ⟨.brokenPipe, "peer closed the connection"⟩

end IoError

inductive ExchangeError where
  | headersAlreadySent
  | headersNotSent
  | closed
  | io (cause : IoError)
deriving DecidableEq, Repr

def ExchangeError.message : ExchangeError → String
  | .headersAlreadySent => "response headers have already been sent"
  | .headersNotSent => "response headers have not been sent yet"
  | .closed => "exchange is closed"
  | .io cause => "I/O error: " ++ cause.message

inductive CodecError where
  | encode (reason : String)
  | decode (reason : String)
deriving DecidableEq, Repr

def CodecError.message : CodecError → String
  | .encode reason => "failed to encode JSON: " ++ reason
  | .decode reason => "failed to decode JSON: " ++ reason

/-- An error that carries its own status and a wording the client may see. -/
structure HttpError where
  status : Status
  title : String
  /-- Further facts, by name; names are distinct and ascending. -/
  details : List (String × String) := []
deriving DecidableEq, Repr

namespace HttpError

/-- The error with one more fact, in place of an earlier one of the same name. -/
def withDetail (e : HttpError) (name value : String) : HttpError :=
  { e with
    details := e.details.filter (·.1 < name) ++ (name, value) :: e.details.filter (name < ·.1) }

def badRequest (title : String) : HttpError := { status := .badRequest, title }

def unauthorized : HttpError := { status := .unauthorized, title := "Unauthorized" }

def forbidden : HttpError := { status := .forbidden, title := "Forbidden" }

def notFound : HttpError := { status := .notFound, title := "Not found" }

def message (e : HttpError) : String := e.status.describe ++ ": " ++ e.title

end HttpError

end HttpDispatch
