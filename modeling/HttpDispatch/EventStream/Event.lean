import HttpDispatch.Text.Utf8

/-!
# Events

The text of events as they are sent to a client: a block of lines, each a field name, a colon and a
value, with a blank line at the end. Only the data of an event may have several lines, and each of
them becomes a field of its own; line breaks in the other fields are left out.
-/

namespace HttpDispatch

structure Event where
  /-- What the client reports as the last event it has seen. -/
  id : Option String := none
  name : Option String := none
  /-- After how many milliseconds the client connects again. -/
  retry : Option Nat := none
  data : String := ""
deriving DecidableEq, Repr

namespace Event

def dropReturn (line : List Char) : List Char :=
  if line.getLast? = some '\r' then line.dropLast else line

/-- The lines of a text: what stands between line feeds, with or without a carriage
return before. -/
def lines (s : List Char) : List (List Char) := (s.splitOn '\n').map dropReturn

def singleLine (s : List Char) : List Char := s.filter fun c => c ≠ '\n' && c ≠ '\r'

def fieldLine (name : String) (value : List Char) : List Char :=
  name.toList ++ ':' :: ' ' :: (value ++ ['\n'])

def chars (e : Event) : List Char :=
  (e.id.map fun s => fieldLine "id" (singleLine s.toList)).getD [] ++
    (e.name.map fun s => fieldLine "event" (singleLine s.toList)).getD [] ++
    (e.retry.map fun n => fieldLine "retry" (Nat.toDigits 10 n)).getD [] ++
    (lines e.data.toList).flatMap (fieldLine "data") ++ ['\n']

/-- The lines of a comment, as characters. A comment is a field without a name, and
ends no event. -/
def commentChars (s : String) : List Char := (lines s.toList).flatMap (fieldLine "")

def retryChars (millis : Nat) : List Char := fieldLine "retry" (Nat.toDigits 10 millis) ++ ['\n']

def encode (e : Event) : String := String.ofList e.chars

end Event

end HttpDispatch
