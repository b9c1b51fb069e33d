import HttpDispatch.Text.Utf8

/-!
# Tokens of compressed data

Compressed data is a sequence of single bytes and of copies of what came before. A copy has a length
from 3 to 258 and a distance from 1 to 32768; both are written as a symbol, which stands for a range
of values, and some more bits that tell the value within the range.
-/

namespace HttpDispatch.Deflate

inductive Token where
  | literal (b : UInt8)
  | copy (length distance : Nat)
deriving DecidableEq, Repr, Inhabited

def Token.size : Token → Nat
  | literal _ => 1
  | copy length _ => length

def lowBits (n count : Nat) : List Bool := (List.range count).map n.testBit

def ofLowBits (bits : List Bool) : Nat := bits.foldr (fun b n => n * 2 + b.toNat) 0

/-- The ranges of values that symbols stand for: the first value and the number of further bits. -/
abbrev Ranges := List (Nat × Nat)

def lengthRanges : Ranges := [
  (3, 0), (4, 0), (5, 0), (6, 0), (7, 0), (8, 0), (9, 0), (10, 0), (11, 1), (13, 1), (15, 1),
  (17, 1), (19, 2), (23, 2), (27, 2), (31, 2), (35, 3), (43, 3), (51, 3), (59, 3), (67, 4),
  (83, 4), (99, 4), (115, 4), (131, 5), (163, 5), (195, 5), (227, 5), (258, 0)]

def distanceRanges : Ranges := [
  (1, 0), (2, 0), (3, 0), (4, 0), (5, 1), (7, 1), (9, 2), (13, 2), (17, 3), (25, 3), (33, 4),
  (49, 4), (65, 5), (97, 5), (129, 6), (193, 6), (257, 7), (385, 7), (513, 8), (769, 8),
  (1025, 9), (1537, 9), (2049, 10), (3073, 10), (4097, 11), (6145, 11), (8193, 12), (12289, 12),
  (16385, 13), (24577, 13)]

/-- The last range that begins at or below `value`: its place, and the further bits of the value. -/
def Ranges.locate (ranges : Ranges) (value : Nat) : Nat × List Bool :=
  let place := (ranges.takeWhile (·.1 ≤ value)).length - 1
  match ranges[place]? with
  | some (first, more) => (place, lowBits (value - first) more)
  | none => (0, [])

def endSymbol : Nat := 256

def firstLengthSymbol : Nat := 257

end HttpDispatch.Deflate
