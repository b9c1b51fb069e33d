import HttpDispatch.Log
import HttpDispatch.Text.Numeral

/-!
# Log filters

Directives say up to which verbosity records are let through: all of them, or those of a target, or
those within certain spans. A directive is written as a level, or as
`target[span{field=value}]=level` with parts left out; without a level it lets everything through.
-/

namespace HttpDispatch

inductive Verbosity where
  | off
  | error
  | warn
  | info
  | debug
  | trace
deriving DecidableEq, Repr

namespace Verbosity

def all : List Verbosity := [off, error, warn, info, debug, trace]

def name : Verbosity → String
  | off => "off"
  | error => "error"
  | warn => "warn"
  | info => "info"
  | debug => "debug"
  | trace => "trace"

def rank : Verbosity → Nat
  | off => 0
  | error => 1
  | warn => 2
  | info => 3
  | debug => 4
  | trace => 5

def max (a b : Verbosity) : Verbosity := if a.rank < b.rank then b else a

/-- The verbosity that a text names by its place or in letters; nothing names errors. -/
def ofString? (s : String) : Option Verbosity :=
  match Numeral.word? s with
  | some n => all[n]?
  | none => if s.isEmpty then some error else all.find? fun v => Text.sameLetters v.name s

end Verbosity

structure LogDirective where
  level : Verbosity
  /-- The source of the records; all sources if there is none. -/
  target : Option String := none
  span : Option String := none
  fields : List (String × Option String) := []
deriving DecidableEq, Repr

namespace LogDirective

def isStart (c : Char) : Bool := c.isAlphanum || c = '-' || c = ':' || c = '_' || 127 < c.toNat

/-- What comes before the first character with a property, and the rest from that character on. -/
def cutBefore (stop : Char → Bool) (cs : List Char) : List Char × List Char :=
  (cs.takeWhile (!stop ·), cs.dropWhile (!stop ·))

/-- The level after an equals sign; if nothing is there, everything is let through. -/
def readLevel (d : LogDirective) (cs : List Char) : Option LogDirective :=
  if cs.isEmpty then some d
  else (Verbosity.ofString? (String.ofList cs)).map fun level => { d with level }

def readEnd (d : LogDirective) : List Char → Option LogDirective
  | [] => some d
  | '=' :: level => readLevel d level
  | _ => none

def readField (cs : List Char) : String × Option String :=
  match Text.cutChars '=' cs with
  | some (name, value) => (String.ofList name, some (String.ofList (value.takeWhile (· ≠ '='))))
  | none => (String.ofList cs, none)

def readSpan (d : LogDirective) (cs : List Char) : Option LogDirective :=
  let (name, rest) := cutBefore (fun c => c = ']' || c = '\x7b') cs
  match rest with
  | ']' :: rest => readEnd { d with span := some (String.ofList name) } rest
  | _ :: rest =>
    let d := if name.isEmpty then d else { d with span := some (String.ofList name) }
    let (field, rest) := cutBefore (· = '\x7d') rest
    match rest with
    | _ :: ']' :: rest =>
      if field.isEmpty then none else readEnd { d with fields := [readField field] } rest
    | _ => none
  | [] => none

/-- A text without a span or an equals sign: a level, or the target of everything that is let
through. -/
def ofName (s : String) : LogDirective :=
  match Verbosity.ofString? s with
  | some level => { level }
  | none => { level := .trace, target := some s }

def ofString? (s : String) : Option LogDirective :=
  match s.toList with
  | [] => none
  | '[' :: span => readSpan { level := .trace } span
  | c :: cs =>
    if !isStart c then none
    else
      let (name, rest) := cutBefore (fun c => c = '=' || c = '[') (c :: cs)
      let d : LogDirective := { level := .trace, target := some (String.ofList name) }
      match rest with
      | [] => some (ofName s)
      | '=' :: level => readLevel d level
      | _ :: span => readSpan d span

def asksValues (d : LogDirective) : Bool := d.fields.any (·.2.isSome)

end LogDirective

structure LogFilter where
  directives : List LogDirective
deriving DecidableEq, Repr

namespace LogFilter

/-- The filter that a list of directives with commas between them writes, if all of them are in
order. Nothing lets nothing through. -/
def ofString? (s : String) : Option LogFilter :=
  (((Text.split ',' s).filter (!·.isEmpty)).mapM LogDirective.ofString?).map LogFilter.mk

def addAll (f : LogFilter) (s : String) : LogFilter :=
  ⟨f.directives ++ (((Text.split ',' s).map Text.trim).filter (!·.isEmpty)).filterMap
    LogDirective.ofString?⟩

/-- The most verbose level that is let through anywhere. Values of fields are not known in advance,
so that a directive which asks for them lets everything through at first. -/
def maxLevel (f : LogFilter) : Verbosity :=
  if f.directives.any LogDirective.asksValues then .trace
  else f.directives.foldl (fun v d => v.max d.level) .off

end LogFilter

end HttpDispatch
