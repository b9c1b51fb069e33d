import HttpDispatch.Config.Settings
import HttpDispatch.Text.Utf8
import HttpDispatch.Yaml.Node

/-!
# Settings from files

Settings as a YAML document gives them. Everything that is left out keeps its usual value, and a
name that is not known is passed over; but a known name may be given only once. A part for which
nothing is written keeps its usual values, too.
-/

namespace HttpDispatch

inductive SettingsError where
  | unreadable (path : String)
  /-- The document is not well formed, or a value in it is not of the right kind. -/
  | malformed
  | fault (f : SettingsFault)
deriving DecidableEq, Repr

def SettingsError.message : SettingsError → String
  | unreadable path => "Failed to read config file " ++ path
  | malformed => "Failed to parse dispatch configuration"
  | fault f => f.message

namespace Yaml.Node

def text? : Node → Option String
  | scalar s _ => some s
  | _ => none

def bool? : Node → Option Bool
  | scalar s true =>
    if ["true", "True", "TRUE"].contains s then some true
    else if ["false", "False", "FALSE"].contains s then some false
    else none
  | _ => none

def baseMarks : List (String × Nat) := [("0x", 16), ("0o", 8), ("0b", 2)]

/-- The number that a text writes: in decimal, without zeros in front, or in another base after its
mark. One plus sign is allowed. -/
def readNumber? (s : String) : Option Nat :=
  let digits := (Text.dropStart? "+" s).getD s
  let based := baseMarks.findSome? fun (mark, base) =>
    (Text.dropStart? mark digits).bind fun rest => Numeral.read? base rest.toList
  match based with
  | some n => some n
  | none =>
    if Text.startsWith '0' digits && digits ≠ "0" then none else Numeral.read? 10 digits.toList

def number? (bound : Nat) : Node → Option Nat
  | scalar s true => (readNumber? s).filter (· < bound)
  | _ => none

def isNull : Node → Bool
  | scalar s true => s.isEmpty || ["null", "Null", "NULL", "~"].contains s
  | _ => false

def optional? (n : Node) : Option (Option Nat) :=
  if n.isNull then some none else (n.number? UInt64.size).map some

def texts? : Node → Option (List String)
  | sequence items => items.mapM text?
  | scalar "" true => some []
  | _ => none

def entries? : Node → Option (List (Node × Node))
  | mapping entries => some entries
  | scalar "" true => some []
  | _ => none

/-- The parts of given names, each of which may be given once. -/
def parts? (names : List String) (n : Node) : Option (List (String × Node)) := do
  let entries ← (← n.entries?).mapM fun (k, v) => do return (← k.text?, v)
  let known := entries.filter fun (k, _) => names.contains k
  if (known.map (·.1)).Nodup then some known else none

def part? {α : Type} (parts : List (String × Node)) (name : String) (usual : α)
    (read : Node → Option α) : Option α :=
  match parts.lookup name with
  | none => some usual
  | some n => read n

end Yaml.Node

open Yaml (Node)
open Yaml.Node (parts? part?)

def RouterSettings.ofNode? (n : Node) : Option RouterSettings := do
  let d : RouterSettings := {}
  let ps ← parts? ["strict_trailing_slash", "bucket_cap"] n
  return {
    strictTrailingSlash := ← part? ps "strict_trailing_slash" d.strictTrailingSlash Node.bool?
    bucketCap := ← part? ps "bucket_cap" d.bucketCap (Node.number? UInt64.size) }

def CompressionSettings.ofNode? (n : Node) : Option CompressionSettings := do
  let d : CompressionSettings := {}
  let ps ← parts? ["enabled", "min_size", "level", "excluded_types", "allowed_types"] n
  return { enabled := ← part? ps "enabled" d.enabled Node.bool?
           minSize := ← part? ps "min_size" d.minSize (Node.number? UInt64.size)
           level := ← part? ps "level" d.level (Node.number? UInt32.size)
           excludedTypes := ← part? ps "excluded_types" d.excludedTypes Node.texts?
           allowedTypes := ← part? ps "allowed_types" d.allowedTypes Node.texts? }

def RangeSettings.ofNode? (n : Node) : Option RangeSettings := do
  let d : RangeSettings := {}
  let ps ← parts? ["chunk_size"] n
  return { chunkSize := ← part? ps "chunk_size" d.chunkSize (Node.number? UInt64.size) }

def StreamSettings.ofNode? (n : Node) : Option StreamSettings := do
  return { retryMillis := ← part? (← parts? ["retry_ms"] n) "retry_ms" none Node.optional? }

namespace Settings

def ofNode? (n : Node) : Option Settings := do
  let ps ← parts? ["router", "compression", "range", "sse"] n
  return { router := ← part? ps "router" {} RouterSettings.ofNode?
           compression := ← part? ps "compression" {} CompressionSettings.ofNode?
           range := ← part? ps "range" {} RangeSettings.ofNode?
           events := ← part? ps "sse" {} StreamSettings.ofNode? }

def ofYaml (s : String) : Except SettingsError Settings :=
  match (Node.ofString? s).bind fun n => ofNode? (n.getD Node.blank) with
  | none => .error .malformed
  | some settings =>
    match settings.fault? with
    | some f => .error (.fault f)
    | none => .ok settings

def ofFile (path : String) (content : Option Bytes) : Except SettingsError Settings :=
  match content.bind Text.decode? with
  | none => .error (.unreadable path)
  | some s => ofYaml s

end Settings

end HttpDispatch
