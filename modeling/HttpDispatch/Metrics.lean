import HttpDispatch.Http.Status
import HttpDispatch.Text.Basic

/-!
# Metrics

Counters of requests, by class of status and by route, and their text in the exposition format that
collectors read. All counters are words of 64 bits. The gauge of requests that are being handled
does not go below zero.
-/

namespace HttpDispatch

structure RouteCounters where
  requests : UInt64 := 0
  /-- Responses that blame the server. -/
  errors : UInt64 := 0
  latency : UInt64 := 0
deriving DecidableEq, Repr

def averageLatency (total count : UInt64) : UInt64 := if count = 0 then 0 else total / count

structure Metrics where
  requests : UInt64 := 0
  inFlight : UInt64 := 0
  latency : UInt64 := 0
  /-- Responses by class of status; class 1 comes first. -/
  classes : Fin 5 → UInt64 := fun _ => 0
  /-- The counters of routes, ascending by template. -/
  routes : List (String × RouteCounters) := []

namespace Metrics

/-- The counters of a route changed by `f`; a route not known yet is added. -/
def updateRoute (template : String) (f : RouteCounters → RouteCounters) :
    List (String × RouteCounters) → List (String × RouteCounters)
  | [] => [(template, f {})]
  | (t, c) :: rest =>
    if template < t then (template, f {}) :: (t, c) :: rest
    else if template = t then (t, f c) :: rest
    else (t, c) :: updateRoute template f rest

/-- With a route that has been asked for no time yet, unless it is known. -/
def register (m : Metrics) (template : String) : Metrics :=
  { m with routes := updateRoute template id m.routes }

/-- The class of a status, counted from zero. A status outside the five classes counts to the
nearest. -/
def classOf (s : Status) : Fin 5 := ⟨min (s.family - 1) 4, by omega⟩

def started (m : Metrics) : Metrics :=
  { m with requests := m.requests + 1, inFlight := m.inFlight + 1 }

def RouteCounters.finished (c : RouteCounters) (status : Status) (nanos : UInt64) : RouteCounters :=
  { requests := c.requests + 1
    errors := if status.isServerError then c.errors + 1 else c.errors
    latency := c.latency + nanos }

/-- A request has been handled: its response has the given status, it was handled for `nanos`
nanoseconds, and it had reached a route with the given template. -/
def finished (m : Metrics) (status : Status) (nanos : UInt64) (template : Option String) :
    Metrics :=
  { requests := m.requests
    inFlight := if m.inFlight = 0 then 0 else m.inFlight - 1
    latency := m.latency + nanos
    classes := fun c => if c = classOf status then m.classes c + 1 else m.classes c
    routes := match template with
      | none => m.routes
      | some t => updateRoute t (RouteCounters.finished · status nanos) m.routes }

/-- The number of responses of a class from 1 to 5; there are none of any other class. -/
def classCount (m : Metrics) (c : Nat) : UInt64 :=
  if h : 1 ≤ c ∧ c ≤ 5 then m.classes ⟨c - 1, by omega⟩ else 0

def completed (m : Metrics) : UInt64 :=
  (List.finRange 5).foldl (fun sum c => sum + m.classes c) 0

def latencyAverage (m : Metrics) : UInt64 := averageLatency m.latency m.completed

/-- The whole number nearest to `num / den`. Of two that are equally near it is the even one. -/
def nearestWhole (num den : Nat) : Nat :=
  let whole := num / den
  let rest := 2 * (num % den)
  if rest < den then whole else if den < rest then whole + 1 else whole + whole % 2

/-- `num / den` rounded to 53 significant binary digits. It should have as many before the point, or
be zero. -/
def nearestBinary (num den : Nat) : Nat :=
  let unit := Nat.pow 2 (Nat.log2 (num / den) - 52)
  nearestWhole num (den * unit) * unit

/-- Nanoseconds as microseconds, by way of the binary floating-point number of seconds: the part of
a second is rounded to one, and so is the sum with the whole seconds. No such number that is not
zero has more than 82 binary places. -/
def microseconds (nanos : UInt64) : Nat :=
  let part := nearestBinary (nanos.toNat % 1000000000 * Nat.pow 2 82) 1000000000
  let total := nearestBinary (nanos.toNat / 1000000000 * Nat.pow 2 82 + part) 1
  nearestWhole (total * 1000000) (Nat.pow 2 82)

def seconds (nanos : UInt64) : String :=
  let micros := microseconds nanos
  let digits := toString (micros % 1000000)
  toString (micros / 1000000) ++ "." ++
    String.ofList (List.replicate (6 - digits.length) '0') ++ digits

def introduction (name help kind : String) : List String :=
  ["# HELP " ++ name ++ " " ++ help ++ "\n", "# TYPE " ++ name ++ " " ++ kind ++ "\n"]

def sample (name value : String) : String := name ++ " " ++ value ++ "\n"

def labelled (name label text value : String) : String :=
  sample (name ++ "\x7b" ++ label ++ "=\"" ++ text ++ "\"\x7d") value

def routeSamples (m : Metrics) (name : String) (value : RouteCounters → String) : List String :=
  m.routes.map fun (template, c) => labelled name "path" template (value c)

def lines (m : Metrics) : List String :=
  introduction "brrtcore_requests_total" "Requests that matched a route" "counter" ++
  [sample "brrtcore_requests_total" (toString m.requests)] ++
  introduction "brrtcore_requests_in_flight" "Requests currently being handled" "gauge" ++
  [sample "brrtcore_requests_in_flight" (toString m.inFlight)] ++
  introduction "brrtcore_request_latency_seconds" "Average request latency" "gauge" ++
  [sample "brrtcore_request_latency_seconds" (seconds m.latencyAverage)] ++
  introduction "brrtcore_responses_total" "Responses by status class" "counter" ++
  ([1, 2, 3, 4, 5].map fun c =>
    labelled "brrtcore_responses_total" "class" (toString c ++ "xx") (toString (m.classCount c))) ++
  introduction "brrtcore_route_requests_total" "Requests per route pattern" "counter" ++
  m.routeSamples "brrtcore_route_requests_total" (fun c => toString c.requests) ++
  introduction "brrtcore_route_errors_total" "5xx responses per route pattern" "counter" ++
  m.routeSamples "brrtcore_route_errors_total" (fun c => toString c.errors) ++
  introduction "brrtcore_route_latency_seconds" "Average latency per route pattern" "gauge" ++
  m.routeSamples "brrtcore_route_latency_seconds"
    (fun c => seconds (averageLatency c.latency c.requests))

def render (m : Metrics) : String := String.join m.lines

/-- The lines that fit into `room` bytes, up to the first one that does not, and whether all do. -/
def fitting (room : Nat) : List String → List String × Bool
  | [] => ([], true)
  | line :: rest =>
    if room < line.utf8ByteSize then ([], false)
    else
      let (taken, all) := fitting (room - line.utf8ByteSize) rest
      (line :: taken, all)

end Metrics

end HttpDispatch
