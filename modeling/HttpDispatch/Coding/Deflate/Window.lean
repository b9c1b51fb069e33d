import HttpDispatch.Coding.Deflate.Token

/-!
# Looking for copies

The bytes seen so far, with a chain from each position to the one before it that begins with three
bytes of the same hash. Copies are looked for along the chain, for a number of probes that depends
on how good the copy at hand is already, and within a window.
-/

namespace HttpDispatch.Deflate

def longestCopy : Nat := 258

def windowSize : Nat := 32768

def hashCount : Nat := 32768

def positionCount : Nat := 65536

def hash (a b c : UInt8) : Nat :=
  ((a.toNat <<< 10) ^^^ (b.toNat <<< 5) ^^^ c.toNat) % hashCount

structure Window where
  data : Array UInt8 := #[]
  /-- The position that each position is chained to; zero ends a chain. -/
  chain : Array Nat := #[]
  heads : Array Nat := Array.replicate hashCount 0

namespace Window

def byte (w : Window) (p : Nat) : UInt8 := w.data.getD p 0

/-- With one more byte, which completes the three bytes from two positions before. -/
def push : Window → UInt8 → Window
  | ⟨data, chain, heads⟩, b =>
    let data := data.push b
    if data.size < 3 then ⟨data, chain, heads⟩
    else
      let p := data.size - 3
      let h := hash (data.getD p 0) (data.getD (p + 1) 0) b
      let before := heads.getD h 0
      ⟨data, chain.push before, heads.set! h p⟩

def append (w : Window) (b : Bytes) : Window := b.foldl push w

/-- How many bytes from two positions on are the same, at most `most`. -/
def common (w : Window) (p q : Nat) : Nat → Nat
  | 0 => 0
  | most + 1 => if w.byte p = w.byte q then common w (p + 1) (q + 1) most + 1 else 0

/-- A copy that has been found: its length, and its distance, which is zero if none has been. -/
structure Found where
  length : Nat
  distance : Nat
deriving DecidableEq, Repr, Inhabited

/-- Follows the chain from position `q` for the best copy to the position `p`. Positions that do not
improve on the best copy's last two bytes are passed over; every third one counts as a probe, and so
does every position that is looked at closely. -/
def follow (w : Window) (p most furthest : Nat) (fuel probes within q : Nat) (best : Found) :
    Found :=
  match fuel with
  | 0 => best
  | fuel + 1 =>
    if within = 0 then
      if probes ≤ 1 then best else follow w p most furthest fuel (probes - 1) 3 q best
    else
      let next := w.chain.getD q 0
      let distance := (p + positionCount - next % positionCount) % positionCount
      if next % positionCount = 0 || furthest < distance then best
      else
        let q := p - distance
        let last := best.length
        if w.byte (q + last - 1) ≠ w.byte (p + last - 1) ||
          w.byte (q + last) ≠ w.byte (p + last) then
          follow w p most furthest fuel probes (within - 1) q best
        else if distance = 0 then best
        else
          let length := w.common p q most
          if length < 2 || length ≤ best.length then follow w p most furthest fuel probes 0 q best
          else if length = most then ⟨length, distance⟩
          else follow w p most furthest fuel probes 0 q ⟨length, distance⟩

/-- The best copy to the position `p` that is longer than `length` and not longer than `most`, if
there is one; `probes` are the numbers of probes for a short and for a long copy at hand. -/
def find (w : Window) (probes : Nat × Nat) (p most furthest length : Nat) : Found :=
  if most ≤ length then ⟨length, 0⟩
  else
    let count := if 32 ≤ length then probes.2 else probes.1
    w.follow p most furthest (4 * count + 4) count 0 p ⟨length, 0⟩

end Window

end HttpDispatch.Deflate
