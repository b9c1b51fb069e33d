import HttpDispatch.Json.Value
import HttpDispatch.Text.Numeral

/-!
# Reading JSON

A reader of JSON text from bytes that reports the line and the column of the first fault. Each step
of the reader takes bytes off the front of what is left, and a fault is located by the number of
bytes that were left when it was found: from that and the whole input the line and the column
follow.

Nesting is bounded, so that no input can exhaust the reader.
-/

namespace HttpDispatch.Json

inductive Fault where
  | endInList
  | endInObject
  | endInText
  | endInValue
  | noColon
  | noListComma
  | noObjectComma
  | noWord
  | noValue
  | escape
  | number
  | numberRange
  | notText
  | control
  | keyNotText
  | loneSurrogate
  | trailingComma
  | trailing
  | endOfEscape
  | tooDeep
deriving DecidableEq, Repr

def Fault.message : Fault → String
  | endInList => "EOF while parsing a list"
  | endInObject => "EOF while parsing an object"
  | endInText => "EOF while parsing a string"
  | endInValue => "EOF while parsing a value"
  | noColon => "expected `:`"
  | noListComma => "expected `,` or `]`"
  | noObjectComma => "expected `,` or `\x7d`"
  | noWord => "expected ident"
  | noValue => "expected value"
  | escape => "invalid escape"
  | number => "invalid number"
  | numberRange => "number out of range"
  | notText => "invalid unicode code point"
  | control => "control character (\\u0000-\\u001F) found while parsing a string"
  | keyNotText => "key must be a string"
  | loneSurrogate => "lone leading surrogate in hex escape"
  | trailingComma => "trailing comma"
  | trailing => "trailing characters"
  | endOfEscape => "unexpected end of hex escape"
  | tooDeep => "recursion limit exceeded"

/-- A fault and how many bytes were left behind its place. -/
structure Located where
  fault : Fault
  left : Nat

/-- What a step of the reader comes to: something read and the bytes that are left. -/
abbrev Read (α : Type) := Except Located (α × Bytes)

def atNext {α : Type} (fault : Fault) (b : Bytes) : Read α := .error ⟨fault, b.length - 1⟩

def atLast {α : Type} (fault : Fault) (b : Bytes) : Read α := .error ⟨fault, b.length⟩

def isGap (b : UInt8) : Bool := b = 0x20 || b = 0x0A || b = 0x09 || b = 0x0D

def digit? (b : UInt8) : Option Nat := if 0x30 ≤ b && b ≤ 0x39 then some (b.toNat - 0x30) else none

def ascii (c : Char) : UInt8 := c.toNat.toUInt8

def readWord (v : Json) : List Char → Bytes → Read Json
  | [], b => .ok (v, b)
  | _ :: _, [] => atLast .endInValue []
  | c :: cs, b :: rest => if b = ascii c then readWord v cs rest else atLast .noWord rest

def wordMax : Nat := UInt64.size - 1

def powerMax : Nat := 308

def powerOfTen (e : Nat) : Float := Float.ofScientific (Nat.pow 10 e) false 0

/-- `f / 10 ^ e`, in steps that stay within the finite powers of ten. -/
def scaleDown (f : Float) (e : Nat) : Float :=
  if e ≤ powerMax then f / powerOfTen e
  else if f == 0.0 then f
  else scaleDown (f / powerOfTen powerMax) (e - powerMax)
termination_by e
decreasing_by
  have : powerMax = 308 := rfl
  omega

/-- The number `digits * 10 ^ exponent`, with the rounding of each step. -/
def scale (negative : Bool) (digits : Nat) (exponent : Int) (b : Bytes) : Read Json :=
  let f := digits.toUInt64.toFloat
  let signed (f : Float) : Json := float (if negative then -f else f)
  if exponent < 0 then .ok (signed (scaleDown f exponent.natAbs), b)
  else if exponent.toNat ≤ powerMax then
    let g := f * powerOfTen exponent.toNat
    if g.isInf then atLast .numberRange b else .ok (signed g, b)
  else if f == 0.0 then .ok (signed f, b)
  else atLast .numberRange b

def skipDigits (b : Bytes) : Bytes := b.dropWhile fun c => (digit? c).isSome

def exponentMax : Nat := 2147483647

def readExponentDigits (negative up : Bool) (digits : Nat) (start : Int) (e : Nat) :
    Bytes → Read Json
  | [] => scale negative digits (if up then start + e else start - e) []
  | b :: rest =>
    match digit? b with
    | none => scale negative digits (if up then start + e else start - e) (b :: rest)
    | some d =>
      if exponentMax < e * 10 + d then
        if digits ≠ 0 && up then atLast .numberRange rest
        else .ok (float (if negative then -0.0 else 0.0), skipDigits rest)
      else readExponentDigits negative up digits start (e * 10 + d) rest

def readExponent (negative : Bool) (digits : Nat) (start : Int) (b : Bytes) : Read Json :=
  let (up, b) := match b with
    | 0x2B :: rest => (true, rest)
    | 0x2D :: rest => (false, rest)
    | _ => (true, b)
  match b with
  | [] => atLast .endInValue []
  | c :: rest =>
    match digit? c with
    | none => atLast .number rest
    | some d => readExponentDigits negative up digits start d rest

def readScale (negative : Bool) (digits : Nat) (start : Int) (b : Bytes) : Read Json :=
  match b with
  | c :: rest =>
    if c = ascii 'e' || c = ascii 'E' then readExponent negative digits start rest
    else scale negative digits start b
  | [] => scale negative digits start []

/-- Reads the digits after a point, `places` of which have been read. Digits that do not fit any
more are passed over. -/
def readPlaces (negative : Bool) (digits : Nat) (start : Int) (places : Nat) : Bytes → Read Json
  | [] =>
    if places = 0 then atNext .endInValue [] else readScale negative digits (start - places) []
  | b :: rest =>
    match digit? b with
    | some d =>
      if wordMax < digits * 10 + d then
        readScale negative digits (start - places) (skipDigits rest)
      else readPlaces negative (digits * 10 + d) start (places + 1) rest
    | none =>
      if places = 0 then atNext .number (b :: rest)
      else readScale negative digits (start - places) (b :: rest)

/-- Reads the digits of a number that is too large to be kept exactly; `dropped` have been passed
over. -/
def readLong (negative : Bool) (digits dropped : Nat) : Bytes → Read Json
  | [] => scale negative digits dropped []
  | b :: rest =>
    if (digit? b).isSome then readLong negative digits (dropped + 1) rest
    else if b = ascii '.' then readPlaces negative digits dropped 0 rest
    else if b = ascii 'e' || b = ascii 'E' then readExponent negative digits dropped rest
    else scale negative digits dropped (b :: rest)

/-- A number without a point and an exponent. Zero with a sign is not a whole number. -/
def whole (negative : Bool) (digits : Nat) : Json :=
  if !negative then integer digits
  else if digits = 0 || 1 <<< 63 < digits then float (-digits.toUInt64.toFloat)
  else integer (-digits)

def readAfterWhole (negative : Bool) (digits : Nat) (b : Bytes) : Read Json :=
  match b with
  | c :: rest =>
    if c = ascii '.' then readPlaces negative digits 0 0 rest
    else if c = ascii 'e' || c = ascii 'E' then readExponent negative digits 0 rest
    else .ok (whole negative digits, b)
  | [] => .ok (whole negative digits, [])

def readWhole (negative : Bool) (digits : Nat) : Bytes → Read Json
  | [] => readAfterWhole negative digits []
  | b :: rest =>
    match digit? b with
    | some d =>
      if wordMax < digits * 10 + d then readLong negative digits 0 (b :: rest)
      else readWhole negative (digits * 10 + d) rest
    | none => readAfterWhole negative digits (b :: rest)

def readNumber (negative : Bool) : Bytes → Read Json
  | [] => atLast .endInValue []
  | b :: rest =>
    match digit? b with
    | none => atLast .number rest
    | some 0 =>
      match rest with
      | c :: _ =>
        if (digit? c).isSome then atNext .number rest else readAfterWhole negative 0 rest
      | [] => readAfterWhole negative 0 []
    | some d => readWhole negative d rest

/-- The number that four digits in base sixteen write, and what follows them. -/
def readFour : Bytes → Read Nat
  | a :: b :: c :: d :: rest =>
    match [a, b, c, d].mapM fun x => Numeral.digitIn? 16 (Char.ofNat x.toNat) with
    | some ds => .ok (ds.foldl (fun n d => n * 16 + d) 0, rest)
    | none => atLast .escape rest
  | _ => atLast .endInText []

def readLowHalf (high : Nat) : Bytes → Read Bytes
  | [] => atLast .endInText []
  | b :: rest =>
    if b ≠ ascii '\\' then atLast .endOfEscape rest
    else match rest with
      | [] => atLast .endInText []
      | c :: rest =>
        if c ≠ ascii 'u' then atLast .endOfEscape rest
        else match readFour rest with
          | .error e => .error e
          | .ok (low, rest) =>
            if low < 0xDC00 || 0xDFFF < low then atLast .loneSurrogate rest
            else
              .ok (String.utf8EncodeChar (Char.ofNat
                (0x10000 + (high - 0xD800) * 1024 + (low - 0xDC00))), rest)

def readEscape : Bytes → Read Bytes
  | [] => atLast .endInText []
  | b :: rest =>
    if b = ascii '"' || b = ascii '\\' || b = ascii '/' then .ok ([b], rest)
    else if b = ascii 'b' then .ok ([0x08], rest)
    else if b = ascii 'f' then .ok ([0x0C], rest)
    else if b = ascii 'n' then .ok ([0x0A], rest)
    else if b = ascii 'r' then .ok ([0x0D], rest)
    else if b = ascii 't' then .ok ([0x09], rest)
    else if b ≠ ascii 'u' then atLast .escape rest
    else match readFour rest with
      | .error e => .error e
      | .ok (n, rest) =>
        if 0xDC00 ≤ n && n ≤ 0xDFFF then atLast .loneSurrogate rest
        else if 0xD800 ≤ n && n ≤ 0xDBFF then readLowHalf n rest
        else .ok (String.utf8EncodeChar (Char.ofNat n), rest)

/-- Reads the bytes of a text up to its closing quote. `seen` are the bytes read so far, last one
first. -/
def readTextBytes (seen : Bytes) : Nat → Bytes → Read Bytes
  | _, [] => atLast .endInText []
  | 0, b => .ok (seen.reverse, b)
  | fuel + 1, b :: rest =>
    if b = ascii '"' then .ok (seen.reverse, rest)
    else if b = ascii '\\' then
      match readEscape rest with
      | .error e => .error e
      | .ok (bytes, rest) => readTextBytes (bytes.reverse ++ seen) fuel rest
    else if b < 0x20 then atLast .control rest
    else readTextBytes (b :: seen) fuel rest

def readText (b : Bytes) : Read String :=
  match readTextBytes [] b.length b with
  | .error e => .error e
  | .ok (bytes, rest) =>
    match Text.decode? bytes with
    | some s => .ok (s, rest)
    | none => .error ⟨.notText, b.length - Text.validLength b - 1⟩

def skipGaps (b : Bytes) : Bytes := b.dropWhile isGap

def readColon (b : Bytes) : Read Unit :=
  match skipGaps b with
  | [] => atNext .endInObject []
  | c :: rest => if c = ascii ':' then .ok ((), rest) else atNext .noColon (c :: rest)

mutual

/-- Reads a value. `depth` is how many levels may still be opened, and `fuel` bounds the number of
steps. -/
def readValue (fuel depth : Nat) (b : Bytes) : Read Json :=
  match fuel with
  | 0 => atNext .noValue b
  | fuel + 1 =>
    match skipGaps b with
    | [] => atNext .endInValue []
    | c :: rest =>
      if c = ascii 'n' then readWord .null ['u', 'l', 'l'] rest
      else if c = ascii 't' then readWord (.bool true) ['r', 'u', 'e'] rest
      else if c = ascii 'f' then readWord (.bool false) ['a', 'l', 's', 'e'] rest
      else if c = ascii '-' then readNumber true rest
      else if (digit? c).isSome then readNumber false (c :: rest)
      else if c = ascii '"' then
        match readText rest with
        | .error e => .error e
        | .ok (s, rest) => .ok (.text s, rest)
      else if c = ascii '[' then
        if depth ≤ 1 then atNext .tooDeep (c :: rest)
        else match readItems fuel (depth - 1) true rest with
          | .error e => .error e
          | .ok (items, rest) => .ok (.array items, rest)
      else if c = ascii '\x7b' then
        if depth ≤ 1 then atNext .tooDeep (c :: rest)
        else match readMembers fuel (depth - 1) true rest with
          | .error e => .error e
          | .ok (members, rest) => .ok (.ofMembers members, rest)
      else atNext .noValue (c :: rest)

def readItems (fuel depth : Nat) (first : Bool) (b : Bytes) : Read (List Json) :=
  match fuel with
  | 0 => atNext .noValue b
  | fuel + 1 =>
    let item (b : Bytes) : Read (List Json) :=
      match readValue fuel depth b with
      | .error e => .error e
      | .ok (v, b) =>
        match readItems fuel depth false b with
        | .error e => .error e
        | .ok (vs, b) => .ok (v :: vs, b)
    match skipGaps b with
    | [] => atNext .endInList []
    | c :: rest =>
      if c = ascii ']' then .ok ([], rest)
      else if first then item (c :: rest)
      else if c ≠ ascii ',' then atNext .noListComma (c :: rest)
      else match skipGaps rest with
        | [] => atNext .endInValue []
        | d :: rest => if d = ascii ']' then atNext .trailingComma (d :: rest) else item (d :: rest)

def readMembers (fuel depth : Nat) (first : Bool) (b : Bytes) : Read (List (String × Json)) :=
  match fuel with
  | 0 => atNext .noValue b
  | fuel + 1 =>
    let member (b : Bytes) : Read (List (String × Json)) :=
      match readText b with
      | .error e => .error e
      | .ok (name, b) =>
        match readColon b with
        | .error e => .error e
        | .ok ((), b) =>
          match readValue fuel depth b with
          | .error e => .error e
          | .ok (v, b) =>
            match readMembers fuel depth false b with
            | .error e => .error e
            | .ok (ms, b) => .ok ((name, v) :: ms, b)
    match skipGaps b with
    | [] => atNext .endInObject []
    | c :: rest =>
      if c = ascii '\x7d' then .ok ([], rest)
      else if first then
        if c = ascii '"' then member rest else atNext .keyNotText (c :: rest)
      else if c ≠ ascii ',' then atNext .noObjectComma (c :: rest)
      else match skipGaps rest with
        | [] => atNext .endInValue []
        | d :: rest =>
          if d = ascii '"' then member rest
          else if d = ascii '\x7d' then atNext .trailingComma (d :: rest)
          else atNext .keyNotText (d :: rest)

end

def depthLimit : Nat := 128

/-- The line and the column, counted from one and in bytes, of the last of the bytes `before` a
place. A place behind a line feed has the column zero of the new line. -/
def position (before : Bytes) : Nat × Nat :=
  (before.count 0x0A + 1, (before.reverse.takeWhile (· ≠ 0x0A)).length)

def Located.message (e : Located) (all : Bytes) : String :=
  let (line, column) := position (all.take (all.length - e.left))
  e.fault.message ++ " at line " ++ toString line ++ " column " ++ toString column

def parse (b : Bytes) : Except String Json :=
  match readValue (2 * b.length + 4) depthLimit b with
  | .error e => .error (e.message b)
  | .ok (v, rest) =>
    match skipGaps rest with
    | [] => .ok v
    | _ :: more => .error (Located.message ⟨.trailing, more.length⟩ b)

end HttpDispatch.Json
