import HttpDispatch.Coding.Deflate.PrefixCode

/-!
# Blocks

Compressed data is written in blocks. A block holds bytes as they are, or tokens in a code that is
agreed upon once and for all, or tokens in a code of its own, whose word lengths are written first,
themselves with runs shortened and in a code.
-/

namespace HttpDispatch.Deflate

/-- The codes of a block: for bytes, lengths and the end, and for distances. -/
structure Codes where
  literals : List Nat
  distances : List Nat

def fixedCodes : Codes where
  literals :=
    List.replicate 144 8 ++ List.replicate 112 9 ++ List.replicate 24 7 ++ List.replicate 8 8
  distances := List.replicate 32 5

/-- How often each symbol for bytes, lengths and the end occurs. -/
def literalCounts (tokens : List Token) : List Nat :=
  (tokens.foldl (fun (t : Array Nat) token =>
    match token with
    | .literal b => t.modify b.toNat (· + 1)
    | .copy length _ => t.modify (firstLengthSymbol + (lengthRanges.locate length).1) (· + 1))
    ((Array.replicate 288 0).set! endSymbol 1)).toList

def distanceCounts (tokens : List Token) : List Nat :=
  (tokens.foldl (fun (t : Array Nat) token =>
    match token with
    | .literal _ => t
    | .copy _ distance => t.modify (distanceRanges.locate distance).1 (· + 1))
    (Array.replicate 32 0)).toList

def fittedCodes (tokens : List Token) : Codes where
  literals := codeLengths 15 (literalCounts tokens)
  distances := codeLengths 15 (distanceCounts tokens)

def tokenBits (codes : Codes) (tokens : List Token) : List Bool :=
  let literals := codeWords codes.literals
  let distances := codeWords codes.distances
  let bits : Token → List Bool
    | .literal b => literals.getD b.toNat []
    | .copy length distance =>
      let (l, lengthRest) := lengthRanges.locate length
      let (d, distanceRest) := distanceRanges.locate distance
      literals.getD (firstLengthSymbol + l) [] ++ lengthRest ++ distances.getD d [] ++ distanceRest
  tokens.flatMap bits ++ literals.getD endSymbol []

/-- A step of writing word lengths: a length, or a run with the number of further repetitions. -/
inductive LengthStep where
  | length (n : Nat)
  /-- The length before, 3 to 6 times. -/
  | again (more : Nat)
  /-- No word, 3 to 10 times. -/
  | fewZeros (more : Nat)
  /-- No word, 11 to 138 times. -/
  | manyZeros (more : Nat)

namespace LengthStep

def symbol : LengthStep → Nat
  | length n => n
  | again _ => 16
  | fewZeros _ => 17
  | manyZeros _ => 18

def extra : LengthStep → List Bool
  | length _ => []
  | again more => lowBits more 2
  | fewZeros more => lowBits more 3
  | manyZeros more => lowBits more 7

end LengthStep

def zeroRun (count : Nat) : List LengthStep :=
  if count < 3 then List.replicate count (.length 0)
  else if count ≤ 10 then [.fewZeros (count - 3)]
  else [.manyZeros (count - 11)]

/-- A run of repetitions of a length that has just been written. -/
def repeatRun (length count : Nat) : List LengthStep :=
  if count < 3 then List.replicate count (.length length) else [.again (count - 3)]

/-- The steps that write lengths. `zeros` and `repeats` count the run that is being read, and `last`
is the length before. -/
def lengthSteps (zeros repeats : Nat) (last : Option Nat) : List Nat → List LengthStep
  | [] => if repeats ≠ 0 then repeatRun (last.getD 0) repeats else zeroRun zeros
  | 0 :: rest =>
    let before := repeatRun (last.getD 0) repeats
    if zeros + 1 = 138 then before ++ zeroRun 138 ++ lengthSteps 0 0 (some 0) rest
    else before ++ lengthSteps (zeros + 1) 0 (some 0) rest
  | n :: rest =>
    let before := zeroRun zeros
    if last = some n then
      if repeats + 1 = 6 then before ++ repeatRun n 6 ++ lengthSteps 0 0 (some n) rest
      else before ++ lengthSteps 0 (repeats + 1) (some n) rest
    else before ++ repeatRun (last.getD 0) repeats ++ .length n :: lengthSteps 0 0 (some n) rest

/-- The order in which the lengths of the words for steps are written. -/
def stepOrder : List Nat := [16, 17, 18, 0, 8, 7, 9, 6, 10, 5, 11, 4, 12, 3, 13, 2, 14, 1, 15]

/-- A list of lengths without zeros at its end, but with `least` lengths. -/
def dropZeros (least : Nat) (lengths : List Nat) : List Nat :=
  lengths.take least ++ ((lengths.drop least).reverse.dropWhile (· = 0)).reverse

def codesBits (codes : Codes) : List Bool :=
  let literals := dropZeros 257 (codes.literals.take 286)
  let distances := dropZeros 1 (codes.distances.take 30)
  let steps := lengthSteps 0 0 none (literals ++ distances)
  let counts :=
    steps.foldl (fun (t : Array Nat) s => t.modify s.symbol (· + 1)) (Array.replicate 19 0)
  let lengths := codeLengths 7 counts.toList
  let words := codeWords lengths
  let ordered := dropZeros 4 (stepOrder.map fun i => lengths.getD i 0)
  lowBits (literals.length - 257) 5 ++ lowBits (distances.length - 1) 5 ++
    lowBits (ordered.length - 4) 4 ++ ordered.flatMap (lowBits · 3) ++
    steps.flatMap fun s => words.getD s.symbol [] ++ s.extra

def codedBlock (fixed : Bool) (tokens : List Token) : List Bool :=
  if fixed then lowBits 1 2 ++ tokenBits fixedCodes tokens
  else
    let codes := fittedCodes tokens
    lowBits 2 2 ++ codesBits codes ++ tokenBits codes tokens

def byteBits (b : Bytes) : List Bool := b.flatMap fun x => lowBits x.toNat 8

/-- The bits of a block that holds bytes as they are, behind its first bit, if `before` bits come
before that one: the bytes begin where a byte begins. -/
def plainBlock (before : Nat) (b : Bytes) : List Bool :=
  let used := before + 3
  lowBits 0 2 ++ List.replicate ((8 - used % 8) % 8) false ++ lowBits b.length 16 ++
    lowBits (65535 - b.length % 65536) 16 ++ byteBits b

end HttpDispatch.Deflate
