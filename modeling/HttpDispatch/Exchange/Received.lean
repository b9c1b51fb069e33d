import HttpDispatch.Exchange.Basic

/-!
# Received responses

What a client makes of the bytes that arrive on a connection: everything up to the first blank line
is the head, its first line the status line and each other line a field, whose name ends at the
first colon that a space follows. Everything after the blank line is the body, since the connection
ends with it.
-/

namespace HttpDispatch

structure Received where
  statusLine : Bytes
  fields : List (Bytes × Bytes)
  body : Bytes
deriving DecidableEq, Repr

namespace Received

/-- What comes before and after the first occurrence of a separator, which is not empty. -/
def cutAt (sep : Bytes) : Bytes → Option (Bytes × Bytes)
  | [] => none
  | b :: rest =>
    if sep.isPrefixOf (b :: rest) then some ([], (b :: rest).drop sep.length)
    else (cutAt sep rest).map fun (before, after) => (b :: before, after)

/-- The end of the last line of a head, and the blank line after it. -/
def headEnd : Bytes := ResponseHead.lineEnd ++ ResponseHead.lineEnd

def lines : Bytes → List Bytes
  | [] => [[]]
  | 0x0D :: 0x0A :: rest => [] :: lines rest
  | b :: rest =>
    match lines rest with
    | line :: more => (b :: line) :: more
    | [] => [[b]]

def fieldMark : Bytes := [0x3A, 0x20]

def splitField (line : Bytes) : Bytes × Bytes := (cutAt fieldMark line).getD (line, [])

/-- What a client has received, if the head has arrived as a whole. -/
def read (b : Bytes) : Option Received :=
  match cutAt headEnd b with
  | none => none
  | some (head, body) =>
    match lines head with
    | [] => none
    | first :: rest => some ⟨first, rest.map splitField, body⟩

def getAll (r : Received) (name : Bytes) : List Bytes := (r.fields.filter (·.1 = name)).map (·.2)

end Received

end HttpDispatch
