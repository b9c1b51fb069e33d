import HttpDispatch.Coding.Deflate.Decoder
import HttpDispatch.Coding.Deflate.Encoder

/-!
# The two codings

One coding is compressed data and nothing else. The other one puts a head of ten bytes in front of
it, and a checksum and the length of the data behind it.
-/

namespace HttpDispatch

namespace Gzip

def checksumBits : Nat → UInt32 → UInt32
  | 0, c => c
  | n + 1, c => checksumBits n (if c &&& 1 = 1 then (c >>> 1) ^^^ 0xEDB88320 else c >>> 1)

def checksum (b : Bytes) : UInt32 :=
  (b.foldl (fun c x => checksumBits 8 (c ^^^ x.toUInt32)) 0xFFFFFFFF) ^^^ 0xFFFFFFFF

def fourBytes (n : Nat) : Bytes :=
  [n.toUInt8, (n >>> 8).toUInt8, (n >>> 16).toUInt8, (n >>> 24).toUInt8]

def head (level : Nat) : Bytes :=
  let hint : UInt8 := if 9 ≤ level then 2 else if level ≤ 1 then 4 else 0
  [0x1F, 0x8B, 0x08, 0, 0, 0, 0, 0, hint, 0xFF]

def tail (data : Bytes) : Bytes := fourBytes (checksum data).toNat ++ fourBytes data.length

/-- Everything that has been written after the given history. -/
def encode (level : Nat) (history : List Feed) : Bytes :=
  head level ++ Deflate.encode level history ++
    if Feed.finish ∈ history then tail (history.flatMap Feed.content) else []

def decode? (b : Bytes) : Option Bytes :=
  if (b.take 4) ≠ [0x1F, 0x8B, 0x08, 0] || b.length < 10 then none
  else match Deflate.decode? (b.drop 10) with
    | none => none
    | some (data, rest) => if rest.take 8 = tail data then some data else none

end Gzip

def Coder.standard : Coder where
  encode
    | .gzip => Gzip.encode
    | .deflate => Deflate.encode
  decode
    | .gzip => Gzip.decode?
    | .deflate => fun b => (Deflate.decode? b).map (·.1)

end HttpDispatch
