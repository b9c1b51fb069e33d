import HttpDispatch.Text.Basic

/-!
# Shortest decimals

The decimal with the fewest digits that still reads back as a given binary floating-point number,
and of those the nearest to it. The number is taken apart into a mantissa and a power of two, and
everything after that is exact arithmetic on natural numbers.
-/

namespace HttpDispatch.Decimal

/-- A finite magnitude `mantissa * 2 ^ (power - 1075)`, and whether the next smaller one is only
half as far away as the next larger one. -/
structure Magnitude where
  mantissa : Nat
  power : Nat
  uneven : Bool
deriving DecidableEq, Repr

inductive Parts where
  | finite (negative : Bool) (m : Magnitude)
  | infinite (negative : Bool)
  | notANumber
deriving DecidableEq, Repr

def parts (x : Float) : Parts :=
  let bits := x.toBits.toNat
  let negative := bits >>> 63 = 1
  let field := (bits >>> 52) % 2048
  let fraction := bits % (1 <<< 52)
  if field = 2047 then
    if fraction = 0 then .infinite negative else .notANumber
  else if field = 0 then .finite negative ⟨fraction, 1, false⟩
  else .finite negative ⟨(1 <<< 52) + fraction, field, fraction = 0 && field ≠ 1⟩

namespace Magnitude

/-- The magnitude as a fraction, with the numerator and the denominator four times as large as they
have to be, so that half the way to a neighbour is a whole number of numerator units. -/
def fraction (m : Magnitude) : Nat × Nat :=
  if 1075 ≤ m.power then ((4 * m.mantissa) <<< (m.power - 1075), 4)
  else (4 * m.mantissa, 4 <<< (1075 - m.power))

/-- A quarter of the step to the next larger magnitude, in numerator units of `fraction`. -/
def quarterStep (m : Magnitude) : Nat := 1 <<< (m.power - 1075)

def covers (m : Magnitude) (num den : Nat) : Bool :=
  let (n, d) := m.fraction
  let low := (n - (if m.uneven then 1 else 2) * m.quarterStep) * den
  let high := (n + 2 * m.quarterStep) * den
  let here := num * d
  if m.mantissa % 2 = 0 then low ≤ here && here ≤ high else low < here && here < high

end Magnitude

/-- A decimal `digits * 10 ^ exponent`. -/
structure Digits where
  digits : Nat
  exponent : Int
deriving DecidableEq, Repr

def Digits.fraction (d : Digits) : Nat × Nat :=
  if 0 ≤ d.exponent then (d.digits * Nat.pow 10 d.exponent.toNat, 1)
  else (d.digits, Nat.pow 10 (-d.exponent).toNat)

def Digits.readsAs (d : Digits) (m : Magnitude) : Bool :=
  let (num, den) := d.fraction
  m.covers num den

/-- The decimal on the grid of multiples of `10 ^ exponent` that is nearest to the magnitude among
those that read back as it. -/
def onGrid? (m : Magnitude) (exponent : Int) : Option Digits :=
  let (n, d) := m.fraction
  let num := if 0 ≤ exponent then n else n * Nat.pow 10 (-exponent).toNat
  let den := if 0 ≤ exponent then d * Nat.pow 10 exponent.toNat else d
  let below : Digits := ⟨num / den, exponent⟩
  let above : Digits := ⟨num / den + 1, exponent⟩
  let order := if num % den * 2 < den then [below, above] else [above, below]
  order.find? (·.readsAs m)

/-- The place of the leading decimal digit of `num / den`: the largest `e` with
`10 ^ e ≤ num / den`, looked for from `e` downwards. -/
def leadingPlace (num den : Nat) (fuel : Nat) (e : Int) : Int :=
  match fuel with
  | 0 => e
  | fuel + 1 =>
    let fits := if 0 ≤ e then Nat.pow 10 e.toNat * den ≤ num else den ≤ num * Nat.pow 10 (-e).toNat
    if fits then e else leadingPlace num den fuel (e - 1)

/-- A place that is not below that of the leading digit of the magnitude. -/
def placeBound (m : Magnitude) : Int :=
  let bits : Int := (Nat.log2 m.mantissa + m.power : Nat) - 1075
  bits * 30103 / 100000 + 1

/-- The decimal of the fewest digits that reads back as the magnitude, which is not zero. -/
def shortest (m : Magnitude) : Digits :=
  let (n, d) := m.fraction
  let place := leadingPlace n d 4 (placeBound m)
  let grids := (List.range 18).map fun (k : Nat) => place - (k : Int)
  (grids.findSome? (onGrid? m)).getD ⟨0, 0⟩

/-- The digits of a decimal without zeros at the end, and the place of the first of them. -/
def significant (m : Magnitude) : List Char × Int :=
  let d := shortest m
  let text := Nat.toDigits 10 d.digits
  ((text.reverse.dropWhile (· = '0')).reverse, d.exponent + (text.length : Int) - 1)

/-- Digits with the first of them at the given place, and at least `places` digits after the point.
The point is left out if no digit follows it. -/
def positional (digits : List Char) (place : Int) (places : Nat) : List Char :=
  let whole := if place < 0 then ['0'] else
    digits.take (place.toNat + 1) ++ List.replicate (place.toNat + 1 - digits.length) '0'
  let part := if place < 0 then List.replicate ((-place).toNat - 1) '0' ++ digits
    else digits.drop (place.toNat + 1)
  let part := part ++ List.replicate (places - part.length) '0'
  if part.isEmpty then whole else whole ++ '.' :: part

/-- Digits with a point after the first of them, and the place of the first one behind
the mark `e`. -/
def scientific (digits : List Char) (place : Int) (plus : Bool) : List Char :=
  let mantissa := match digits with
    | [] => ['0']
    | [d] => [d]
    | d :: ds => d :: '.' :: ds
  let sign := if place < 0 then ['-'] else if plus then ['+'] else []
  mantissa ++ 'e' :: (sign ++ Nat.toDigits 10 place.natAbs)

structure Format where
  /-- The places of the first digit for which no exponent is written. -/
  isPositional : Int → Bool
  /-- The least number of digits after the point where no exponent is written. -/
  places : Nat
  plus : Bool

def Format.text (f : Format) (x : Float) : String :=
  match parts x with
  | .notANumber => "NaN"
  | .infinite negative => if negative then "-inf" else "inf"
  | .finite negative m =>
    let body :=
      if m.mantissa = 0 then positional ['0'] 0 f.places
      else
        let (digits, place) := significant m
        if f.isPositional place then positional digits place f.places
        else scientific digits place f.plus
    String.ofList (if negative then '-' :: body else body)

/-- The notation of settings: an exponent from the sixteenth place on and below the fourth place
after the point. -/
def brief : Format := ⟨fun place => -4 ≤ place && place < 16, 1, false⟩

end HttpDispatch.Decimal
