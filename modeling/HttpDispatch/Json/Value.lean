import HttpDispatch.Text.Utf8

/-!
# JSON values

A JSON value as a tree. Whole numbers are kept exactly, and every other number is the nearest 64-bit
floating-point number. The members of an object are kept in ascending order of their names, each
name once.
-/

namespace HttpDispatch

inductive Json where
  | null
  | bool (b : Bool)
  /-- A whole number from `- 2 ^ 63` to `2 ^ 64 - 1`. -/
  | integer (n : Int)
  | float (x : Float)
  | text (s : String)
  | array (items : List Json)
  /-- The members, ascending by name and without repetition. -/
  | object (members : List (String × Json))
deriving Inhabited

namespace Json

def insertMember (name : String) (value : Json) : List (String × Json) → List (String × Json)
  | [] => [(name, value)]
  | (n, v) :: rest =>
    if name < n then (name, value) :: (n, v) :: rest
    else if name = n then (name, value) :: rest
    else (n, v) :: insertMember name value rest

/-- The object of the given members. Of several of one name, the last counts. -/
def ofMembers (members : List (String × Json)) : Json :=
  object (members.foldl (fun acc (n, v) => insertMember n v acc) [])

def natural (n : Nat) : Json := integer n

def get? (name : String) : Json → Option Json
  | object members => members.lookup name
  | _ => none

end Json

end HttpDispatch
