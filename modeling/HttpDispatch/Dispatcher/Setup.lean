import HttpDispatch.Dispatcher.Basic

/-!
# Setting up a dispatcher

What an application is made of before it serves requests: handlers of errors, routes and filters in
the order of their registration, settings, a codec and an access manager. Building a dispatcher
leaves out the registrations that fail, or fails with the first of them.
-/

namespace HttpDispatch

structure Setup (σ : Type) where
  errorHandlers : List (Category × ErrorHandler σ) := []
  registrations : List (RoutesRegistration σ) := []
  settings : Settings := {}
  codec : Codec := .standard false
  coder : Coder
  access : Option (AccessManager σ) := none
  strict : Bool := false

namespace Setup

variable {σ : Type}

def emptyRoutes (s : Setup σ) : Routes σ :=
  .empty s.settings.router.strictTrailingSlash s.settings.router.bucketCap

def routes (s : Setup σ) : Routes σ := s.emptyRoutes.registerValid s.registrations

/-- The handlers of errors. Of several for one category, the last counts. -/
def handlers (s : Setup σ) : ErrorHandlers (ErrorHandler σ) :=
  s.errorHandlers.foldl (fun t (c, h) => t.register c h) .empty

def handlersReport (t : ErrorHandlers (ErrorHandler σ)) :
    List (Category × ErrorHandler σ) → List LogEvent
  | [] => []
  | (c, h) :: rest => t.registerReport c :: handlersReport (t.register c h) rest

def failures (s : Setup σ) : List (Nat × RouteError) := s.emptyRoutes.failures 0 s.registrations

def build (s : Setup σ) : Except RouteError (Dispatcher σ) :=
  let dispatcher (routes : Routes σ) : Dispatcher σ :=
    { routes, errorHandlers := s.handlers, settings := s.settings, codec := s.codec,
      coder := s.coder, access := s.access }
  if s.strict then (s.emptyRoutes.registerAll s.registrations).map dispatcher
  else .ok (dispatcher s.routes)

/-- What is reported while the dispatcher is built: handlers of errors come first. -/
def report (s : Setup σ) : List LogEvent :=
  handlersReport .empty s.errorHandlers ++ s.emptyRoutes.registerValidReport s.registrations ++
    [s.routes.readyReport]

end Setup

end HttpDispatch
