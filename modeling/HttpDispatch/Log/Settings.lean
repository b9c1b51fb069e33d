import HttpDispatch.Config.Environment
import HttpDispatch.Decimal.Read
import HttpDispatch.Log.Filter
import HttpDispatch.Log.Sampling

/-!
# Settings of the log

How the log is written and what it holds, as the environment of the process sets it: a variable that
is missing or cannot be understood leaves the usual value.
-/

namespace HttpDispatch

inductive LogFormat where
  | json
  | pretty
deriving DecidableEq, Repr

def LogFormat.ofString (s : String) : LogFormat :=
  if Text.sameLetters s "pretty" then pretty else json

structure LogSettings where
  level : String := "info"
  format : LogFormat := .json
  mode : SamplingMode := .all
  /-- The fraction of events that are kept where some are left out. -/
  rate : Float := 1.0
  async : Bool := true
  /-- Further directives, with commas between them. -/
  targets : Option String := none
  location : Bool := false

namespace LogSettings

def readBool? (s : String) : Option Bool :=
  if s = "true" then some true else if s = "false" then some false else none

def ofEnvironment (env : Environment) : LogSettings :=
  let usual : LogSettings := {}
  let trimmed (name : String) : Option String := (env.lookup name).map Text.trim
  { level := (env.lookup "BRRTR_LOG_LEVEL").getD usual.level
    format := ((env.lookup "BRRTR_LOG_FORMAT").map LogFormat.ofString).getD usual.format
    mode := ((env.lookup "BRRTR_LOG_SAMPLING_MODE").map SamplingMode.ofString).getD usual.mode
    rate := ((trimmed "BRRTR_LOG_SAMPLING_RATE").bind Decimal.read?).getD usual.rate
    async := ((trimmed "BRRTR_LOG_ASYNC").bind readBool?).getD usual.async
    targets := env.lookup "BRRTR_LOG_TARGET_FILTER"
    location := ((trimmed "BRRTR_LOG_INCLUDE_LOCATION").bind readBool?).getD usual.location }

def development : LogSettings :=
  { level := "debug", format := .pretty, async := false, location := true }

def verbosity (s : LogSettings) : Verbosity :=
  ([Verbosity.trace, .debug, .warn, .error].find? fun v =>
    Text.sameLetters v.name s.level).getD .info

/-- The filter that the settings ask for. A variable of its own goes before the level, if it can be
read as a filter. -/
def filter (s : LogSettings) (env : Environment) : LogFilter :=
  let base := ((env.lookup "RUST_LOG").bind LogFilter.ofString?).getD ⟨[{ level := s.verbosity }]⟩
  base.addAll (s.targets.getD "")

end LogSettings

end HttpDispatch
