import HttpDispatch.Decimal.Shortest
import HttpDispatch.Json.Value

/-!
# Writing JSON

The text of a value, either without any blanks or with one member or item a line, indented by two
spaces for each level.
-/

namespace HttpDispatch.Json

/-- A floating-point number has an exponent from the sixteenth place on and below the fifth place
after the point; otherwise it has a point and a digit after it. -/
def numberFormat : Decimal.Format := ⟨fun place => -5 ≤ place && place ≤ 15, 1, true⟩

def hexPair (n : Nat) : List Char := [Nat.digitChar (n / 16), Nat.digitChar (n % 16)]

def escaped (c : Char) : List Char :=
  if c = '"' then ['\\', '"']
  else if c = '\\' then ['\\', '\\']
  else if c.toNat = 0x08 then ['\\', 'b']
  else if c = '\t' then ['\\', 't']
  else if c = '\n' then ['\\', 'n']
  else if c.toNat = 0x0C then ['\\', 'f']
  else if c = '\r' then ['\\', 'r']
  else if c.toNat < 0x20 then '\\' :: 'u' :: '0' :: '0' :: hexPair c.toNat
  else [c]

def quote (s : String) : String := String.ofList ('"' :: (s.toList.flatMap escaped ++ ['"']))

/-- A floating-point number; those that are not finite have no text. -/
def floatText (x : Float) : String :=
  match Decimal.parts x with
  | .finite _ _ => numberFormat.text x
  | _ => "null"

mutual

def compact : Json → String
  | null => "null"
  | bool b => if b then "true" else "false"
  | integer n => toString n
  | float x => floatText x
  | text s => quote s
  | array items => "[" ++ compactItems items ++ "]"
  | object members => "\x7b" ++ compactMembers members ++ "\x7d"

def compactItems : List Json → String
  | [] => ""
  | [v] => compact v
  | v :: vs => compact v ++ "," ++ compactItems vs

def compactMembers : List (String × Json) → String
  | [] => ""
  | [(n, v)] => quote n ++ ":" ++ compact v
  | (n, v) :: ms => quote n ++ ":" ++ compact v ++ "," ++ compactMembers ms

end

def newLine (level : Nat) : String := "\n" ++ String.ofList (List.replicate (2 * level) ' ')

mutual

def indented (level : Nat) : Json → String
  | null => "null"
  | bool b => if b then "true" else "false"
  | integer n => toString n
  | float x => floatText x
  | text s => quote s
  | array [] => "[]"
  | array (v :: vs) => "[" ++ indentedItems (level + 1) (v :: vs) ++ newLine level ++ "]"
  | object [] => "\x7b\x7d"
  | object (m :: ms) =>
    "\x7b" ++ indentedMembers (level + 1) (m :: ms) ++ newLine level ++ "\x7d"

def indentedItems (level : Nat) : List Json → String
  | [] => ""
  | [v] => newLine level ++ indented level v
  | v :: vs => newLine level ++ indented level v ++ "," ++ indentedItems level vs

def indentedMembers (level : Nat) : List (String × Json) → String
  | [] => ""
  | [(n, v)] => newLine level ++ quote n ++ ": " ++ indented level v
  | (n, v) :: ms =>
    newLine level ++ quote n ++ ": " ++ indented level v ++ "," ++ indentedMembers level ms

end

def print (pretty : Bool) (v : Json) : String := if pretty then indented 0 v else compact v

end HttpDispatch.Json
