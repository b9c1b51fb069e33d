import HttpDispatch.Coding.Coder
import HttpDispatch.Coding.Deflate.Block
import HttpDispatch.Coding.Deflate.Window

/-!
# The encoder

The encoder turns bytes into tokens as soon as the longest copy could be seen, and all of them when
it is asked to flush or to finish; then it writes the tokens as a block. With lazy matching a copy
is held back for one position, and given up for a longer one that begins there. A block that would
not become shorter than its bytes is written as it is.
-/

namespace HttpDispatch.Deflate

/-- A copy that is held back, and the byte at its position. -/
structure Held where
  byte : UInt8
  found : Window.Found

/-- How hard an encoder tries. -/
structure Effort where
  probes : Nat × Nat
  greedy : Bool
  plain : Bool

def Effort.ofLevel (level : Nat) : Effort :=
  let probes := [0, 1, 6, 32, 16, 32, 128, 256, 512, 768].getD level 1500
  { probes := (1 + (probes + 2) / 3, 1 + (probes / 4 + 2) / 3)
    greedy := level ≤ 3
    plain := level = 0 }

structure Encoder where
  effort : Effort
  window : Window := {}
  position : Nat := 0
  held : Option Held := none
  tokens : List Token := []
  count : Nat := 0
  copies : Nat := 0
  blockStart : Nat := 0
  blockSize : Nat := 0
  bits : List Bool := []
  bytes : Bytes := []

namespace Encoder

/-- The whole bytes that bits make up, put in front of those before, and the bits that are left. -/
def packBits (bytes : Bytes) : List Bool → Bytes × List Bool
  | b₀ :: b₁ :: b₂ :: b₃ :: b₄ :: b₅ :: b₆ :: b₇ :: rest =>
    packBits ((ofLowBits [b₀, b₁, b₂, b₃, b₄, b₅, b₆, b₇]).toUInt8 :: bytes) rest
  | rest => (bytes, rest)

def write (e : Encoder) (more : List Bool) : Encoder :=
  let (bytes, bits) := packBits e.bytes (e.bits ++ more)
  { e with bytes, bits }

def pad (e : Encoder) : Encoder := e.write (List.replicate ((8 - e.bits.length % 8) % 8) false)

def blockBytes (e : Encoder) : Bytes :=
  (e.window.data.extract e.blockStart (e.blockStart + e.blockSize)).toList

/-- The bits of the current block. Bytes are written as they are if there are more than 32 of them
and the tokens take as many whole bytes or more. -/
def blockBits (e : Encoder) (last : Bool) : List Bool :=
  let coded := codedBlock (e.blockSize < 48) e.tokens.reverse
  let grows := 32 < e.blockSize && e.blockSize ≤ ((e.bits.length + 1) % 8 + coded.length) / 8 + 1
  if e.effort.plain || grows then last :: plainBlock e.bits.length e.blockBytes else last :: coded

def endBlock (e : Encoder) (last : Bool) : Encoder :=
  { e.write (e.blockBits last) with
    tokens := [], count := 0, copies := 0,
    blockStart := e.blockStart + e.blockSize, blockSize := 0 }

/-- Whether the current block has grown too large, or does not become shorter by coding. -/
def isFull (e : Encoder) : Bool :=
  let size := 1 + e.count + 2 * e.copies + e.count / 8
  65536 - 8 < size ||
    (31 * 1024 < e.blockSize && (e.blockSize ≤ size * 115 / 128 || e.effort.plain))

def choose (e : Encoder) (t : Token) : Encoder :=
  { e with tokens := t :: e.tokens, count := e.count + 1,
           copies := if 1 < t.size then e.copies + 1 else e.copies,
           blockSize := e.blockSize + t.size }

def advance (e : Encoder) (count : Nat) : Encoder :=
  let e := { e with position := e.position + count }
  if e.isFull then e.endBlock false else e

/-- The copy to take or to hold at the current position, if it is worth it: a short copy from far
away is not. -/
def copyHere? (e : Encoder) : Option Window.Found :=
  let left := e.window.data.size - e.position
  let most := min longestCopy left
  let furthest := min e.position (windowSize - min left longestCopy)
  let atLeast := match e.held with
    | some h => h.found.length
    | none => 2
  let found := e.window.find e.effort.probes e.position most furthest atLeast
  if found.distance = 0 || (found.length = 3 && 8192 ≤ found.distance) ||
      e.position % windowSize = found.distance then none
  else some found

def step (e : Encoder) : Encoder :=
  let byte := e.window.byte e.position
  if e.effort.plain then (e.choose (.literal byte)).advance 1
  else match e.held, e.copyHere? with
    | some h, some found =>
      if h.found.length < found.length then
        let e := e.choose (.literal h.byte)
        if 128 ≤ found.length then
          ({ e with held := none }.choose (.copy found.length found.distance)).advance found.length
        else { e with held := some ⟨byte, found⟩ }.advance 1
      else
        ({ e with held := none }.choose (.copy h.found.length h.found.distance)).advance
          (h.found.length - 1)
    | some h, none =>
      ({ e with held := none }.choose (.copy h.found.length h.found.distance)).advance
        (h.found.length - 1)
    | none, none => (e.choose (.literal byte)).advance 1
    | none, some found =>
      if e.effort.greedy || 128 ≤ found.length then
        (e.choose (.copy found.length found.distance)).advance found.length
      else { e with held := some ⟨byte, found⟩ }.advance 1

/-- Chooses tokens while more than `ahead` bytes are left, at most `fuel` times. -/
def chooseAll (ahead : Nat) : Nat → Encoder → Encoder
  | 0, e => e
  | fuel + 1, e =>
    if e.position + ahead < e.window.data.size then chooseAll ahead fuel e.step else e

def settle (e : Encoder) : Encoder := chooseAll 0 (e.window.data.size - e.position) e

def feed (e : Encoder) : Feed → Encoder
  | .data b =>
    let e := { e with window := e.window.append b }
    chooseAll (longestCopy - 1) (e.window.data.size - e.position) e
  | .flush =>
    let e := (e.settle.endBlock false).write (lowBits 0 3)
    e.pad.write (lowBits 0 16 ++ lowBits 0xFFFF 16)
  | .finish => (e.settle.endBlock true).pad

def start (level : Nat) : Encoder := { effort := .ofLevel level }

def output (e : Encoder) : Bytes := e.bytes.reverse

end Encoder

def encode (level : Nat) (history : List Feed) : Bytes :=
  (history.foldl Encoder.feed (Encoder.start level)).output

end HttpDispatch.Deflate
