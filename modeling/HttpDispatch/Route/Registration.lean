import HttpDispatch.Route.Table

/-!
# Registrations

What is registered with a route table, one thing at a time, as an inductive type. A table is the
outcome of a list of registrations, so that laws about every table are laws about lists. Those that
fail are left out, or the first of them is the outcome.
-/

namespace HttpDispatch

/-- Something that is registered: routes are served by an `H`, filters are `B` and `A`. -/
inductive Registration (H B A : Type) where
  | route (verb : Verb) (path : String) (roles : List String) (handler : H)
  | before (scope : Option String) (filter : B)
  | after (scope : Option String) (filter : A)
  | around (scope : Option String) (before : B) (after : A)

namespace RouteTable

variable {H B A : Type}

def register (t : RouteTable H B A) : Registration H B A → Except RouteError (RouteTable H B A)
  | .route v path roles h => t.addRoute v path roles h
  | .before scope f => t.addBefore scope f
  | .after scope f => t.addAfter scope f
  | .around scope b a => t.addAround scope b a

def registerReport (t : RouteTable H B A) : Registration H B A → List LogEvent
  | .route v path _ _ => t.routeReport v path
  | .before .. | .after .. | .around .. => []

def registerIfValid (t : RouteTable H B A) (r : Registration H B A) : RouteTable H B A :=
  (t.register r).toOption.getD t

def registerValid (t : RouteTable H B A) (rs : List (Registration H B A)) : RouteTable H B A :=
  rs.foldl registerIfValid t

/-- With all registrations, or the error of the first that fails. -/
def registerAll (t : RouteTable H B A) :
    List (Registration H B A) → Except RouteError (RouteTable H B A)
  | [] => .ok t
  | r :: rs =>
    match t.register r with
    | .error e => .error e
    | .ok t => t.registerAll rs

/-- The registrations that fail, by their number counted from `start`, and why. -/
def failures (t : RouteTable H B A) (start : Nat) :
    List (Registration H B A) → List (Nat × RouteError)
  | [] => []
  | r :: rs =>
    match t.register r with
    | .error e => (start, e) :: t.failures (start + 1) rs
    | .ok t => t.failures (start + 1) rs

def registerValidReport (t : RouteTable H B A) : List (Registration H B A) → List LogEvent
  | [] => []
  | r :: rs => t.registerReport r ++ (t.registerIfValid r).registerValidReport rs

theorem registerIfValid_eq_of_ok {t u : RouteTable H B A} {r : Registration H B A}
    (h : t.register r = .ok u) : t.registerIfValid r = u := by
  simp [registerIfValid, h, Except.toOption]

theorem registerIfValid_eq_of_error {t : RouteTable H B A} {r : Registration H B A} {e : RouteError}
    (h : t.register r = .error e) : t.registerIfValid r = t := by
  simp [registerIfValid, h, Except.toOption]

theorem registerValid_eq_of_registerAll {t u : RouteTable H B A} {rs : List (Registration H B A)}
    (h : t.registerAll rs = .ok u) : t.registerValid rs = u := by
  induction rs generalizing t with
  | nil => simpa [registerAll, registerValid] using h
  | cons r rs ih =>
    rw [registerAll] at h
    cases hr : t.register r with
    | error e => simp [hr] at h
    | ok v =>
      simp only [hr] at h
      simpa [registerValid, registerIfValid_eq_of_ok hr] using ih h

end RouteTable

end HttpDispatch
