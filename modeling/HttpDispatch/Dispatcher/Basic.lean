import HttpDispatch.Coding.Coder
import HttpDispatch.Config.Settings
import HttpDispatch.ErrorHandlers
import HttpDispatch.Json.Codec
import HttpDispatch.Program.Basic
import HttpDispatch.Route.Registration

/-!
# Dispatchers

A dispatcher is everything that does not change from request to request: the routes and filters, the
handlers of errors, the settings, the way to write bodies, and who may use which route.
-/

namespace HttpDispatch

abbrev Routes (σ : Type) := RouteTable (Handler σ) (BeforeFilter σ) (AfterFilter σ)

abbrev RoutesRegistration (σ : Type) := Registration (Handler σ) (BeforeFilter σ) (AfterFilter σ)

structure Dispatcher (σ : Type) where
  routes : Routes σ
  errorHandlers : ErrorHandlers (ErrorHandler σ) := .empty
  settings : Settings := {}
  codec : Codec := .standard false
  coder : Coder
  /-- Who may use which route; everybody may use every route if nobody is asked. -/
  access : Option (AccessManager σ) := none

namespace Dispatcher

variable {σ : Type}

def shown (d : Dispatcher σ) : String :=
  Text.shownRecord "Dispatcher" [("routes", d.routes.shown), ("exceptions", d.errorHandlers.shown),
    ("config", d.settings.shown), ("access_manager", Text.shownBool d.access.isSome)] false

end Dispatcher

end HttpDispatch
