import HttpDispatch.Connection.Source
import HttpDispatch.Http.Address
import HttpDispatch.Http.Field

/-!
# Requests

What a client asks for, and the body that comes with it. The body is read at most once: a part that
has been read does not come again.
-/

namespace HttpDispatch

structure Request where
  method : Method
  path : String
  query : Option String := none
  version : Version := .http11
  headers : Headers := .empty
  remote : Option SocketAddress := none

/-- The request for a target, which may have a query after its first question mark. -/
def Request.ofTarget (method : Method) (target : String) : Request :=
  match Text.cut '?' target with
  | some (path, query) => { method, path, query := some query }
  | none => { method, path := target }

inductive RequestBody where
  | held (rest : Bytes)
  /-- The next `left` bytes of a reader, or as many as there are. -/
  | bounded (left : Nat) (reader : Reader)

namespace RequestBody

def read (body : RequestBody) (n : Nat) : Except IoError Bytes × RequestBody :=
  match body with
  | held rest => (.ok (rest.take n), held (rest.drop n))
  | bounded left reader =>
    if left = 0 then (.ok [], body)
    else match reader.read (min n left) with
      | (.ok b, reader) => (.ok b, bounded (left - b.length) reader)
      | (.error e, reader) => (.error e, bounded left reader)

/-- The most that is asked for at once when a whole body is read. -/
def pieceSize : Nat := 8192

def readBounded (left : Nat) (reader : Reader) : Except IoError Bytes × Nat × Reader :=
  if left = 0 then (.ok [], left, reader)
  else match reader.read (min pieceSize left) with
    | (.error e, reader) => (.error e, left, reader)
    | (.ok [], reader) => (.ok [], left, reader)
    | (.ok (b :: bs), reader) =>
      match readBounded (left - (b :: bs).length) reader with
      | (.ok rest, left, reader) => (.ok (b :: bs ++ rest), left, reader)
      | (.error e, left, reader) => (.error e, left, reader)
termination_by left
decreasing_by simp only [List.length_cons]; omega

def readAll (body : RequestBody) : Except IoError Bytes × RequestBody :=
  match body with
  | held rest => (.ok rest, held [])
  | bounded left reader =>
    match readBounded left reader with
    | (result, left, reader) => (result, bounded left reader)

end RequestBody

end HttpDispatch
