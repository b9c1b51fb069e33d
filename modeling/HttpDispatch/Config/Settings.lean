import HttpDispatch.Text.Quoted

/-!
# Settings

What can be set about routing, compression, ranges and event streams, with the values that hold if
nothing is set. Settings that make no sense are refused with the first of their faults.
-/

namespace HttpDispatch

structure RouterSettings where
  strictTrailingSlash : Bool := false
  /-- The number of segments from which on routes share a bucket. -/
  bucketCap : Nat := 5
deriving DecidableEq, Repr

structure CompressionSettings where
  enabled : Bool := true
  /-- Bodies whose first part is shorter than this are sent as they are. -/
  minSize : Nat := 1500
  level : Nat := 6
  excludedTypes : List String := ["application/compress", "application/zip", "application/gzip",
    "application/x-gzip", "application/bzip2", "application/brotli", "application/x-xz",
    "application/x-rar-compressed", "application/x-7z-compressed"]
  /-- Media types that are compressed although their family is not. -/
  allowedTypes : List String := ["image/svg+xml"]
deriving DecidableEq, Repr

structure RangeSettings where
  chunkSize : Nat := 128 * 1024
deriving DecidableEq, Repr

structure StreamSettings where
  /-- The hint after how many milliseconds to connect again, sent when a stream opens. -/
  retryMillis : Option Nat := none
deriving DecidableEq, Repr

structure Settings where
  router : RouterSettings := {}
  compression : CompressionSettings := {}
  range : RangeSettings := {}
  events : StreamSettings := {}
deriving DecidableEq, Repr

inductive SettingsFault where
  | level (value : Nat)
  | chunkSize
  | bucketCap
deriving DecidableEq, Repr

def SettingsFault.message : SettingsFault → String
  | level value => "compression.level must be between 0 and 9, got " ++ toString value
  | chunkSize => "range.chunk_size must be greater than zero"
  | bucketCap => "router.bucket_cap must be greater than zero"

namespace Settings

def fault? (s : Settings) : Option SettingsFault :=
  if 9 < s.compression.level then some (.level s.compression.level)
  else if s.range.chunkSize = 0 then some .chunkSize
  else if s.router.bucketCap = 0 then some .bucketCap
  else none

def shownTexts (items : List String) : String := Text.shownList (items.map Text.quoted)

def shown (s : Settings) : String :=
  Text.shownRecord "DispatchConfig" [
    ("router", Text.shownRecord "RouterConfig" [
      ("strict_trailing_slash", Text.shownBool s.router.strictTrailingSlash),
      ("bucket_cap", toString s.router.bucketCap)] true),
    ("compression", Text.shownRecord "CompressionConfig" [
      ("enabled", Text.shownBool s.compression.enabled),
      ("min_size", toString s.compression.minSize),
      ("level", toString s.compression.level),
      ("excluded_types", shownTexts s.compression.excludedTypes),
      ("allowed_types", shownTexts s.compression.allowedTypes)] true),
    ("range", Text.shownRecord "RangeConfig" [("chunk_size", toString s.range.chunkSize)] true),
    ("sse", Text.shownRecord "SseConfig"
      [("retry_ms", Text.shownOption (s.events.retryMillis.map toString))] true)] true

end Settings

end HttpDispatch
