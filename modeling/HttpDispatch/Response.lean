import HttpDispatch.Category
import HttpDispatch.Http.Field
import HttpDispatch.Json.Value
import HttpDispatch.Log

/-!
# Responses

What filters, handlers and error handlers return: a status, header fields and a body. The response
to an error that nobody handles shows the error's own wording if it has one for the client, and a
fixed one if it has not.
-/

namespace HttpDispatch

inductive Body where
  | empty
  | bytes (b : Bytes)
  | text (s : String)
  | json (v : Json)
  /-- The body has been written already. -/
  | streamed

/-- A response that has not been sent yet. -/
structure Response where
  status : Status := .ok
  headers : Headers := .empty
  body : Body := .empty

namespace Response

def isStreamed (r : Response) : Bool :=
  match r.body with
  | .streamed => true
  | _ => false

def ok : Response := {}

def streamed : Response := { body := .streamed }

def withStatus (r : Response) (s : Status) : Response := { r with status := s }

def withField (r : Response) (n : FieldName) (v : FieldValue) : Response :=
  { r with headers := r.headers.insert n v }

def text (s : String) : Response := { body := .text s }

def html (s : String) : Response := (text s).withField .contentType .html

def json (v : Json) : Response := { body := .json v }

def bytes (b : Bytes) : Response := { body := .bytes b }

/-- With the header field that two texts spell, if they spell one. -/
def setField (r : Response) (name value : String) : Response :=
  match FieldName.ofString? name, FieldValue.ofString? value with
  | some n, some v => r.withField n v
  | _, _ => r

/-- What is reported when a header field is set from two texts. -/
def setFieldReport (name value : String) : List LogEvent :=
  match FieldName.ofString? name, FieldValue.ofString? value with
  | some _, some _ => []
  | _, _ => [.invalidHeader name]

def detailMembers (details : List (String × String)) : List (String × Json) :=
  details.map fun (k, v) => (k, .text v)

/-- The response that shows a title, as plain text or with everything that is known as JSON. -/
def ofTitle (status : Status) (title : String) (details : List (String × String)) (asJson : Bool) :
    Response :=
  if asJson then
    { status, body := .json (.ofMembers [("title", .text title), ("status", .natural status.code),
        ("details", .ofMembers (detailMembers details))]),
      headers := Headers.empty.insert .contentType .json }
  else
    { status, body := .text title, headers := Headers.empty.insert .contentType .plainText }

/-- The title of an error that carries no status of its own. -/
def internalTitle : String := "Internal server error"

def internalError (asJson : Bool) : Response :=
  ofTitle .internalServerError internalTitle [] asJson

def ofError (e : DispatchError) (asJson : Bool) : Response :=
  match e with
  | .http h => ofTitle h.status h.title h.details asJson
  | _ => internalError asJson

end Response

end HttpDispatch
