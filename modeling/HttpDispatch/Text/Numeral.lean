import HttpDispatch.Text.Basic

/-!
# Numerals

Reading natural numbers from text in a given base. A numeral is a non-empty run of digits; the
bounded readers also accept one plus sign in front and refuse a number that does not fit.
-/

namespace HttpDispatch.Numeral

def digit? (c : Char) : Option Nat :=
  if c.isDigit then some (c.toNat - '0'.toNat)
  else if 'a' ≤ c && c ≤ 'z' then some (c.toNat - 'a'.toNat + 10)
  else if 'A' ≤ c && c ≤ 'Z' then some (c.toNat - 'A'.toNat + 10)
  else none

def digitIn? (base : Nat) (c : Char) : Option Nat := (digit? c).filter (· < base)

def digits? (base : Nat) (acc : Nat) : List Char → Option Nat
  | [] => some acc
  | c :: cs => (digitIn? base c).bind fun d => digits? base (acc * base + d) cs

def read? (base : Nat) (cs : List Char) : Option Nat :=
  if cs.isEmpty then none else digits? base 0 cs

/-- The number below `bound` that `s` denotes in the given base, one plus sign allowed. -/
def readBounded? (base bound : Nat) (s : String) : Option Nat :=
  let cs := match s.toList with
    | '+' :: cs => cs
    | cs => cs
  (read? base cs).filter (· < bound)

/-- The number of at most 64 bits that `s` denotes in decimal, one plus sign allowed. -/
def word? (s : String) : Option Nat := readBounded? 10 UInt64.size s

def hex (n : Nat) : String := String.ofList (Nat.toDigits 16 n)

end HttpDispatch.Numeral
