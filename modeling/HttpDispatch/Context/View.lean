import HttpDispatch.Coding.Negotiation
import HttpDispatch.Exchange.Basic
import HttpDispatch.Route.Index
import HttpDispatch.Url.Query

/-!
# What handlers see

The state of a request as filters, handlers and error handlers may look at it: what the client asked
for, the route, and what is pending for the response.
-/

namespace HttpDispatch

inductive Phase where
  | routing
  | beforeFilters
  | handler
  | error
  | afterFilters
  | done
deriving DecidableEq, Repr

def Phase.name : Phase → String
  | routing => "routing"
  | beforeFilters => "before_filters"
  | handler => "handler"
  | error => "error"
  | afterFilters => "after_filters"
  | done => "done"

structure MatchedRoute where
  method : String
  pattern : PathPattern
  roles : List String
deriving DecidableEq, Repr

def RouteEntry.matched {H : Type} (e : RouteEntry H) : MatchedRoute :=
  ⟨e.method, e.pattern, e.roles⟩

/-- What may be seen of a request and its response. -/
structure View where
  id : RequestId
  request : Request
  /-- The route; there is none while it is looked for, and if there is none. -/
  route : Option MatchedRoute
  phase : Phase
  settings : Settings
  status : Status
  pending : Headers
  headersSent : Bool
  attributes : Attributes

/-- Whether an item of the field `accept` names JSON: wildcards for everything do not. -/
def namesJson (item : String) : Bool :=
  match Text.cut '/' (Text.trim (Text.before ';' item)) with
  | none => false
  | some (kind, subtype) =>
    let n := subtype.toList.length
    (Text.sameLetters kind "application" || kind = "*") &&
      (Text.sameLetters subtype "json" ||
        (5 < n && Text.sameLetters (String.ofList (subtype.toList.drop (n - 5))) "+json"))

def Headers.acceptsJson (h : Headers) : Bool :=
  (h.texts .accept).any fun value => (Text.split ',' value).any namesJson

namespace View

def header (v : View) (name : String) : Option String :=
  (FieldName.ofString? name).bind fun n => (v.request.headers.get? n).bind FieldValue.text?

def acceptsJson (v : View) : Bool := v.request.headers.acceptsJson

def template (v : View) : Option String := v.route.map fun r => r.pattern.template

/-- The parameters in the path; one that is not text is the client's fault. -/
def pathParams (v : View) : Except DispatchError (List (String × String)) :=
  match v.route with
  | none => .ok []
  | some r => (r.pattern.params v.request.path).mapError fun e => .http (.badRequest e.message)

/-- The parameter of the given name; asking for one that the route does not have is a fault of the
application. -/
def pathParam (v : View) (name : String) : Except DispatchError String :=
  match v.pathParams with
  | .error e => .error e
  | .ok ps =>
    match ps.lookup name with
    | some value => .ok value
    | none => .error (.application (.ofName "routing.param")
        ("route has no path parameter '" ++ name ++ "'"))

def queryParams (v : View) : List (String × String) := (v.request.query.map Query.pairs).getD []

def queryAll (v : View) (name : String) : List String :=
  (v.queryParams.filter (·.1 = name)).map (·.2)

def queryParam (v : View) (name : String) : Option String := (v.queryAll name).getLast?

end View

end HttpDispatch
