import HttpDispatch.Decimal.Shortest
import HttpDispatch.Log

/-!
# Sampling of log records

Which records of a log are kept. Warnings and errors always are; of the others a sampler keeps all,
none, or every so-many-th, counted from the first. How many that is follows from the fraction that
is asked for: the whole number nearest to its inverse, a half going up.
-/

namespace HttpDispatch

/-- Which records are kept besides warnings and errors. -/
inductive SamplingMode where
  | all
  | errorsOnly
  | sampled
deriving DecidableEq, Repr

def SamplingMode.ofString (s : String) : SamplingMode :=
  if Text.sameLetters s "error-only" || Text.sameLetters s "error_only" then errorsOnly
  else if Text.sameLetters s "sampled" then sampled
  else all

structure LogRecord where
  level : LogLevel
  isSpan : Bool := false
deriving DecidableEq, Repr

def LogRecord.isImportant (r : LogRecord) : Bool := r.level = .warn || r.level = .error

structure Sampler where
  mode : SamplingMode
  /-- One of so many events is kept; none if there is no such number. -/
  interval : Option Nat
  /-- How many events have been counted. -/
  seen : UInt64 := 0
deriving DecidableEq, Repr

namespace Sampler

/-- The whole number nearest to a magnitude, a half going up. -/
def nearestWhole (m : Decimal.Magnitude) : Nat :=
  let (num, den) := m.fraction
  (2 * num + den) / (2 * den)

/-- The whole number nearest to `x`, from 1 to as much as fits into a word; 1 if `x` is
no number. -/
def wholeOf (x : Float) : Nat :=
  match Decimal.parts x with
  | .notANumber => 1
  | .infinite negative => if negative then 1 else UInt64.size - 1
  | .finite negative m => if negative then 1 else max 1 (min (nearestWhole m) (UInt64.size - 1))

/-- One of how many events is kept, so that about the fraction `rate` of them is. Fractions above
one keep everything, and those that are not above zero keep nothing. -/
def intervalOf (rate : Float) : Option Nat :=
  if rate ≤ 0.0 then none
  else if 1.0 < rate then some 1
  else some (wholeOf (1.0 / rate))

def ofRate (mode : SamplingMode) (rate : Float) : Sampler := { mode, interval := intervalOf rate }

/-- Whether the next event is kept, and the sampler after it. -/
def count (s : Sampler) : Bool × Sampler :=
  match s.interval with
  | none => (false, s)
  | some n => (s.seen.toNat % n = 0, { s with seen := s.seen + 1 })

def keep (s : Sampler) (r : LogRecord) : Bool × Sampler :=
  match s.mode with
  | .all => (true, s)
  | .errorsOnly => (r.isImportant, s)
  | .sampled => if r.isImportant || r.isSpan then (true, s) else s.count

def keepAll (s : Sampler) : List LogRecord → List Bool
  | [] => []
  | r :: rs =>
    match s.keep r with
    | (kept, s) => kept :: s.keepAll rs

end Sampler

end HttpDispatch
