import HttpDispatch.Text.Numeral
import HttpDispatch.Text.Printable

/-!
# Quoted text

How a text is shown where its exact content matters: between double quotes, with a backslash in
front of quotes and backslashes, short names for the usual controls, and code points in braces for
whatever has no visible form or would join the character before it. Lists, sets and optional values
of such texts are shown in the same notation.
-/

namespace HttpDispatch.Text

def quotedChar (c : Char) : List Char :=
  if c = '"' then ['\\', '"']
  else if c = '\\' then ['\\', '\\']
  else if c = '\n' then ['\\', 'n']
  else if c = '\r' then ['\\', 'r']
  else if c = '\t' then ['\\', 't']
  else if c = '\x00' then ['\\', '0']
  else if isVisible c && !isExtending c then [c]
  else '\\' :: 'u' :: '\x7b' :: (Nat.toDigits 16 c.toNat ++ ['\x7d'])

def quoted (s : String) : String :=
  String.ofList ('"' :: (s.toList.flatMap quotedChar ++ ['"']))

def shownList (items : List String) : String := "[" ++ join ", " items ++ "]"

def shownSet (items : List String) : String := "\x7b" ++ join ", " items ++ "\x7d"

def shownOption : Option String → String
  | none => "None"
  | some s => "Some(" ++ s ++ ")"

def shownBool (b : Bool) : String := if b then "true" else "false"

/-- A record as it is shown, with its fields already shown; two dots stand for fields left out. -/
def shownRecord (name : String) (fields : List (String × String)) (complete : Bool) : String :=
  name ++ " \x7b " ++
    join ", " (fields.map (fun (k, v) => k ++ ": " ++ v) ++ if complete then [] else [".."]) ++
    " \x7d"

end HttpDispatch.Text
