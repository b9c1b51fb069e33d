import HttpDispatch.Text.Numeral

/-!
# Reading decimals

The binary floating-point number nearest to a decimal numeral. A numeral may have a sign, a point
and an exponent, and at least one digit; the names of infinity and of the number that is none are
read, too.
-/

namespace HttpDispatch.Decimal

def digitRun (cs : List Char) : List Char × List Char :=
  (cs.takeWhile (·.isDigit), cs.dropWhile (·.isDigit))

def runValue (cs : List Char) : Nat := (Numeral.digits? 10 0 cs).getD 0

/-- The exponent that `cs` writes behind its mark: an optional sign and a non-empty run
of digits. -/
def exponent? (cs : List Char) : Option Int :=
  match cs with
  | '+' :: ds => (Numeral.read? 10 ds).map Int.ofNat
  | '-' :: ds => (Numeral.read? 10 ds).map fun n => -(n : Int)
  | ds => (Numeral.read? 10 ds).map Int.ofNat

/-- The magnitude nearest to `mantissa * 10 ^ exponent`. Beyond a thousand places the answer is zero
or infinite whatever the digits are, counted from the first one. -/
def nearest (mantissa : Nat) (exponent : Int) : Float :=
  let place := exponent + (Nat.toDigits 10 mantissa).length
  if mantissa = 0 || place < -1000 then 0.0
  else if 1000 < place then 1.0 / 0.0
  else if exponent < 0 then Float.ofScientific mantissa true exponent.natAbs
  else Float.ofScientific (mantissa * Nat.pow 10 exponent.toNat) false 0

def readMagnitude? (cs : List Char) : Option Float :=
  let (whole, rest) := digitRun cs
  let (part, rest) := match rest with
    | '.' :: rest => digitRun rest
    | _ => ([], rest)
  if whole.isEmpty && part.isEmpty then none
  else
    let finish (e : Int) : Float := nearest (runValue (whole ++ part)) (e - part.length)
    match rest with
    | [] => some (finish 0)
    | c :: rest => if c = 'e' || c = 'E' then (exponent? rest).map finish else none

def readUnsigned? (cs : List Char) : Option Float :=
  let name := String.ofList (cs.map Char.toLower)
  if name = "nan" then some (0.0 / 0.0)
  else if name = "inf" || name = "infinity" then some (1.0 / 0.0)
  else readMagnitude? cs

def read? (s : String) : Option Float :=
  match s.toList with
  | '-' :: cs => (readUnsigned? cs).map (- ·)
  | '+' :: cs => readUnsigned? cs
  | cs => readUnsigned? cs

end HttpDispatch.Decimal
