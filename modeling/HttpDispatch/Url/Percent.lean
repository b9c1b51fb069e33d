import HttpDispatch.Text.Numeral

/-!
# Percent coding

A percent sign followed by two hexadecimal digits stands for a byte. Anything else stands for
itself, a stray percent sign included.
-/

namespace HttpDispatch.Percent

def sign : UInt8 := 0x25

def hexValue? (b : UInt8) : Option UInt8 :=
  if 0x30 ≤ b && b ≤ 0x39 then some (b - 0x30)
  else if 0x41 ≤ b && b ≤ 0x46 then some (b - 0x41 + 10)
  else if 0x61 ≤ b && b ≤ 0x66 then some (b - 0x61 + 10)
  else none

def pair? (high low : UInt8) : Option UInt8 :=
  match hexValue? high, hexValue? low with
  | some h, some l => some (h * 16 + l)
  | _, _ => none

def decodeBytes : Bytes → Bytes
  | [] => []
  | [b] => [b]
  | [b, c] => [b, c]
  | b :: high :: low :: rest =>
    if b = sign then
      match pair? high low with
      | some byte => byte :: decodeBytes rest
      | none => b :: decodeBytes (high :: low :: rest)
    else b :: decodeBytes (high :: low :: rest)
termination_by b => b.length

/-- The text that `s` stands for; `none` if the bytes are not the encoding of a text. -/
def decode? (s : String) : Option String := Text.decode? (decodeBytes (Text.encode s))

/-- Whether a byte needs no coding: letters, digits and four marks. -/
def isUnreserved (b : UInt8) : Bool :=
  (0x30 ≤ b && b ≤ 0x39) || (0x41 ≤ b && b ≤ 0x5A) || (0x61 ≤ b && b ≤ 0x7A) ||
    b = 0x2D || b = 0x2E || b = 0x5F || b = 0x7E

def hexDigit (n : UInt8) : UInt8 := if n < 10 then 0x30 + n else 0x41 + (n - 10)

/-- A byte as it is written: itself, or a percent sign and two digits. -/
def encodeByte (b : UInt8) : Bytes :=
  if isUnreserved b then [b] else [sign, hexDigit (b / 16), hexDigit (b % 16)]

def encodeBytes (b : Bytes) : Bytes := b.flatMap encodeByte

def encode (s : String) : String :=
  String.ofList ((encodeBytes (Text.encode s)).map fun b => Char.ofNat b.toNat)

end HttpDispatch.Percent
