import HttpDispatch.Coding.Deflate.Block

/-!
# The decoder

Reads compressed data block by block. A block that cannot be read, or the lack of a last one, makes
the whole undecodable; what follows the last block is left over.
-/

namespace HttpDispatch.Deflate

/-- Bits that are being read, with their number, and the bytes they stand for so far. -/
structure Decoding where
  bits : List Bool
  out : Array UInt8 := #[]

def takeBits (count : Nat) (bits : List Bool) : Option (Nat × List Bool) :=
  let head := bits.take count
  if head.length < count then none else some (ofLowBits head, bits.drop count)

def takeBytes : Nat → Decoding → Option Decoding
  | 0, d => some d
  | count + 1, ⟨bits, out⟩ =>
    (takeBits 8 bits).bind fun (n, bits) => takeBytes count ⟨bits, out.push n.toUInt8⟩

/-- Appends `length` bytes from `distance` bytes ago, one by one. -/
def copyBack (out : Array UInt8) (distance : Nat) : Nat → Array UInt8
  | 0 => out
  | length + 1 =>
    let b := out.getD (out.size - distance) 0
    copyBack (out.push b) distance length

def readRange (ranges : Ranges) (place : Nat) (bits : List Bool) : Option (Nat × List Bool) :=
  match ranges[place]? with
  | none => none
  | some (first, more) => (takeBits more bits).map fun (n, bits) => (first + n, bits)

def readTokens (literals distances : SymbolTable) : Nat → Decoding → Option Decoding
  | 0, _ => none
  | fuel + 1, ⟨bits, out⟩ =>
    match readSymbol literals bits with
    | none => none
    | some (symbol, bits) =>
      if symbol < endSymbol then readTokens literals distances fuel ⟨bits, out.push symbol.toUInt8⟩
      else if symbol = endSymbol then some ⟨bits, out⟩
      else match readRange lengthRanges (symbol - firstLengthSymbol) bits with
        | none => none
        | some (length, bits) =>
          match readSymbol distances bits with
          | none => none
          | some (place, bits) =>
            match readRange distanceRanges place bits with
            | none => none
            | some (distance, bits) =>
              if out.size < distance then none
              else readTokens literals distances fuel ⟨bits, copyBack out distance length⟩

/-- Reads `count` word lengths; those read so far are `seen`, last one first. -/
def readLengths (table : SymbolTable) : Nat → Nat → List Nat → List Bool →
    Option (List Nat × List Bool)
  | 0, _, _, _ => none
  | fuel + 1, count, seen, bits =>
    if count ≤ seen.length then
      if seen.length = count then some (seen.reverse, bits) else none
    else match readSymbol table bits with
      | none => none
      | some (symbol, bits) =>
        if symbol < 16 then readLengths table fuel count (symbol :: seen) bits
        else
          let run (value : Option Nat) (least more : Nat) : Option (List Nat × List Bool) :=
            match value, takeBits more bits with
            | some v, some (n, bits) =>
              readLengths table fuel count (List.replicate (least + n) v ++ seen) bits
            | _, _ => none
          if symbol = 16 then run seen.head? 3 2
          else if symbol = 17 then run (some 0) 3 3
          else run (some 0) 11 7

def takeStepLengths : List Nat → Array Nat → List Bool → Option (Array Nat × List Bool)
  | [], lengths, bits => some (lengths, bits)
  | i :: rest, lengths, bits =>
    (takeBits 3 bits).bind fun (n, bits) => takeStepLengths rest (lengths.set! i n) bits

def readCodes (bits : List Bool) : Option (Codes × List Bool) := do
  let (literalCount, bits) ← takeBits 5 bits
  let (distanceCount, bits) ← takeBits 5 bits
  let (stepCount, bits) ← takeBits 4 bits
  let (steps, bits) ← takeStepLengths (stepOrder.take (stepCount + 4)) (Array.replicate 19 0) bits
  let count := literalCount + 257 + distanceCount + 1
  let (lengths, bits) ← readLengths (.ofLengths steps.toList) (count + 1) count [] bits
  some (⟨lengths.take (literalCount + 257), lengths.drop (literalCount + 257)⟩, bits)

def readCoded (codes : Codes) (d : Decoding) : Option Decoding :=
  readTokens (.ofLengths codes.literals) (.ofLengths codes.distances) (d.bits.length + 1) d

def readBlock (d : Decoding) : Option Decoding :=
  match takeBits 2 d.bits with
  | some (0, bits) => do
    let bits := bits.drop (bits.length % 8)
    let (size, bits) ← takeBits 16 bits
    let (check, bits) ← takeBits 16 bits
    if size + check = 65535 then takeBytes size { d with bits } else none
  | some (1, bits) => readCoded fixedCodes { d with bits }
  | some (2, bits) => do
    let (codes, bits) ← readCodes bits
    readCoded codes { d with bits }
  | _ => none

def readBlocks : Nat → Decoding → Option Decoding
  | 0, _ => none
  | fuel + 1, ⟨bits, out⟩ =>
    match bits with
    | [] => none
    | last :: bits =>
      match readBlock ⟨bits, out⟩ with
      | none => none
      | some d => if last then some d else readBlocks fuel d

/-- The data that `b` stands for, and what follows the last block. -/
def decode? (b : Bytes) : Option (Bytes × Bytes) :=
  (readBlocks (8 * b.length + 1) { bits := byteBits b }).map fun d =>
    (d.out.toList, b.drop (b.length - d.bits.length / 8))

end HttpDispatch.Deflate
