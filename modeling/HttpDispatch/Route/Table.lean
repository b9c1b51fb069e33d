import HttpDispatch.Log
import HttpDispatch.Route.Index
import HttpDispatch.Text.Quoted

/-!
# Route tables

A table has one index for each method that can have routes, and the filters that run before and
after handlers, each for the paths under a prefix or for all of them. Routes and filters are added
one after the other; an addition that fails leaves the table as it was.
-/

namespace HttpDispatch

/-- A method that can have routes. -/
inductive Verb where
  | get
  | post
  | put
  | patch
  | delete
  | head
  | trace
  | options
deriving DecidableEq, Repr

namespace Verb

def all : List Verb := [get, post, put, patch, delete, head, trace, options]

def name : Verb → String
  | get => "GET"
  | post => "POST"
  | put => "PUT"
  | patch => "PATCH"
  | delete => "DELETE"
  | head => "HEAD"
  | trace => "TRACE"
  | options => "OPTIONS"

def label : Verb → String
  | get => "Get"
  | post => "Post"
  | put => "Put"
  | patch => "Patch"
  | delete => "Delete"
  | head => "Head"
  | trace => "Trace"
  | options => "Options"

def ofMethod? (m : Method) : Option Verb := all.find? (·.name = m.name)

end Verb

inductive RouteError where
  | invalidPattern (verb : Verb) (path : String) (cause : PatternError)
  | invalidPrefix (path : String)
deriving DecidableEq, Repr

def RouteError.message : RouteError → String
  | .invalidPattern v path cause =>
    "invalid route " ++ v.name ++ " " ++ path ++ ": " ++ cause.message
  | .invalidPrefix path => "invalid filter prefix '" ++ path ++ "': must start with '/'"

structure FilterEntry (F : Type) where
  /-- The paths at and under this one, or all paths. -/
  scope : Option String
  filter : F

namespace FilterEntry

/-- Whether the filter applies to `path`: `/two` covers `/two` and what lies under `/two/`, and not
`/twofold`. -/
def appliesTo {F : Type} (f : FilterEntry F) (path : String) : Bool :=
  match f.scope with
  | none => true
  | some scope =>
    match scope.toList.isPrefixOf? path.toList with
    | none => false
    | some rest => rest.isEmpty || rest.head? == some '/'

/-- The scope that a prefix such as `/two`, `/two/` or `/two/*` stands for. Nothing but slashes and
a star at the end stands for all paths. -/
def readScope (pattern : Option String) : Except RouteError (Option String) :=
  match pattern with
  | none => .ok none
  | some raw =>
    let trimmed := Text.dropEndWhile '/' ((Text.dropEnd? "*" raw).getD raw)
    if trimmed.isEmpty then .ok none
    else if Text.startsWith '/' trimmed then .ok (some trimmed)
    else .error (.invalidPrefix raw)

end FilterEntry

/-- Routes served by an `H`, with filters `B` before and `A` after them. -/
structure RouteTable (H B A : Type) where
  /-- Whether slashes at the end of paths matter for the routes that are added. -/
  strict : Bool
  index : Verb → RouteIndex H
  /-- The filters that run before handlers, in order of registration. -/
  before : List (FilterEntry B)
  /-- The filters that run after handlers, in order of registration. -/
  after : List (FilterEntry A)

namespace RouteTable

variable {H B A : Type}

/-- The number of segments from which on routes share a bucket, unless something else is asked
for. -/
def defaultBucketCap : Nat := 5

def empty (strict : Bool) (bucketCap : Nat) : RouteTable H B A where
  strict
  index _ := .empty bucketCap
  before := []
  after := []

def addRoute (t : RouteTable H B A) (v : Verb) (path : String) (roles : List String) (handler : H) :
    Except RouteError (RouteTable H B A) :=
  match PathPattern.compile path t.strict with
  | .error cause => .error (.invalidPattern v path cause)
  | .ok pattern =>
    let entry : RouteEntry H := ⟨v.name, pattern, (roles.mergeSort (· ≤ ·)).eraseDups, handler⟩
    .ok { t with index := fun w => if w = v then (t.index v).add entry else t.index w }

def routeReport (t : RouteTable H B A) (v : Verb) (path : String) : List LogEvent :=
  match PathPattern.compile path t.strict with
  | .error _ => []
  | .ok pattern => [.routeRegistered v.name pattern.template pattern.length]

def addBefore (t : RouteTable H B A) (pattern : Option String) (f : B) :
    Except RouteError (RouteTable H B A) :=
  (FilterEntry.readScope pattern).map fun scope => { t with before := t.before ++ [⟨scope, f⟩] }

def addAfter (t : RouteTable H B A) (pattern : Option String) (f : A) :
    Except RouteError (RouteTable H B A) :=
  (FilterEntry.readScope pattern).map fun scope => { t with after := t.after ++ [⟨scope, f⟩] }

/-- With a filter on both sides of handlers, for the same paths. -/
def addAround (t : RouteTable H B A) (pattern : Option String) (b : B) (a : A) :
    Except RouteError (RouteTable H B A) :=
  match t.addBefore pattern b with
  | .error e => .error e
  | .ok t => t.addAfter pattern a

def route? (t : RouteTable H B A) (m : Method) (path : String) : Option (RouteEntry H) :=
  match Verb.ofMethod? m with
  | none => none
  | some v => (t.index v).find? path

def routingReport (t : RouteTable H B A) (m : Method) (path : String) : List LogEvent :=
  .matchAttempt m path ::
    match Verb.ofMethod? m with
    | none => [.unsupportedMethod m]
    | some v =>
      match (t.index v).find? path with
      | some e => [.routeMatched m path e.pattern.template]
      | none => [.noRoute m path]

def beforeFor (t : RouteTable H B A) (path : String) : List (FilterEntry B) :=
  t.before.filter (·.appliesTo path)

def afterFor (t : RouteTable H B A) (path : String) : List (FilterEntry A) :=
  t.after.filter (·.appliesTo path)

def isEmpty (t : RouteTable H B A) : Bool := Verb.all.all fun v => (t.index v).isEmpty

def routes (t : RouteTable H B A) : List (RouteEntry H) :=
  Verb.all.flatMap fun v => (t.index v).toList

def size (t : RouteTable H B A) : Nat := t.routes.length

/-- The templates of all routes, ascending and without repetition. -/
def templates (t : RouteTable H B A) : List String :=
  ((t.routes.map (·.pattern.template)).mergeSort (· ≤ ·)).eraseDups

/-- The report of a table that is ready for use. It names the first ten routes. -/
def readyReport (t : RouteTable H B A) : LogEvent :=
  let names := (t.routes.take 10).map fun e => e.method ++ " " ++ e.pattern.template
  .tableLoaded t.size t.before.length t.after.length (Text.shownList (names.map Text.quoted))

def shown (t : RouteTable H B A) : String :=
  Text.shownRecord "RouteTable" [("routes", toString t.size),
    ("before_filters", toString t.before.length), ("after_filters", toString t.after.length)] true

def shownBuilder (t : RouteTable H B A) : String :=
  Text.shownRecord "RouterBuilder" [("strict_trailing_slash", Text.shownBool t.strict),
    ("routes", toString t.size), ("before_filters", toString t.before.length),
    ("after_filters", toString t.after.length)] true

end RouteTable

def RouteEntry.shown {H : Type} (v : Verb) (e : RouteEntry H) : String :=
  Text.shownRecord "RouteEntry" [("kind", v.label), ("pattern", Text.quoted e.pattern.template),
    ("roles", Text.shownSet (e.roles.map fun r => "Role(" ++ Text.quoted r ++ ")"))] false

def FilterEntry.shown {F : Type} (phase : String) (f : FilterEntry F) : String :=
  Text.shownRecord "FilterEntry"
    [("phase", phase), ("prefix", Text.shownOption (f.scope.map Text.quoted))] false

end HttpDispatch
