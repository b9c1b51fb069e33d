import HttpDispatch.Json.Printer
import HttpDispatch.Text.Quoted

/-!
# Shapes of JSON values

A shape says which values are accepted and what is made of them: a number within bounds, a text, a
list, a record of two fields. A value that does not fit is refused with a reason that shows what was
found and what was expected.
-/

namespace HttpDispatch.Json

inductive ShapeError where
  | kind (found : String) (expected : String)
  | range (found : String) (expected : String)
  | length (count : Nat) (expected : String)
  | missing (field : String)
deriving DecidableEq, Repr

def ShapeError.message : ShapeError → String
  | kind found expected => "invalid type: " ++ found ++ ", expected " ++ expected
  | range found expected => "invalid value: " ++ found ++ ", expected " ++ expected
  | length count expected => "invalid length " ++ toString count ++ ", expected " ++ expected
  | missing field => "missing field `" ++ field ++ "`"

def shown : Json → String
  | null => "null"
  | bool b => "boolean `" ++ Text.shownBool b ++ "`"
  | integer n => "integer `" ++ toString n ++ "`"
  | float x => "floating point `" ++ floatText x ++ "`"
  | text s => "string " ++ Text.quoted s
  | array _ => "sequence"
  | object _ => "map"

abbrev Shape (α : Type) := Json → Except ShapeError α

namespace Shape

variable {α β : Type}

def any : Shape Json := .ok

def bool : Shape Bool
  | .bool b => .ok b
  | v => .error (.kind v.shown "a boolean")

def text : Shape String
  | .text s => .ok s
  | v => .error (.kind v.shown "a string")

def integer (label : String) (low high : Int) : Shape Int
  | .integer n =>
    if low ≤ n && n ≤ high then .ok n else .error (.range (Json.integer n).shown label)
  | v => .error (.kind v.shown label)

/-- Each item in turn; the first one at fault decides the error. -/
def items (item : Shape α) : List Json → Except ShapeError (List α)
  | [] => .ok []
  | v :: vs =>
    match item v with
    | .error e => .error e
    | .ok a => (items item vs).map (a :: ·)

def list (item : Shape α) : Shape (List α)
  | .array vs => items item vs
  | v => .error (.kind v.shown "a sequence")

def option (shape : Shape α) : Shape (Option α)
  | .null => .ok none
  | v => (shape v).map some

structure Field (α : Type) where
  name : String
  shape : Shape α
  absent : Option α := none

def Field.finish (f : Field α) (read : Option α) : Except ShapeError α :=
  match read <|> f.absent with
  | some a => .ok a
  | none => .error (.missing f.name)

def readFields (first : Field α) (second : Field β) (a : Option α) (b : Option β) :
    List (String × Json) → Except ShapeError (Option α × Option β)
  | [] => .ok (a, b)
  | (n, v) :: rest =>
    if n = first.name then
      match first.shape v with
      | .error e => .error e
      | .ok x => readFields first second (some x) b rest
    else if n = second.name then
      match second.shape v with
      | .error e => .error e
      | .ok y => readFields first second a (some y) rest
    else readFields first second a b rest

/-- A record of two fields, also as a list of two items. Members of other names are passed over. -/
def record (label : String) (first : Field α) (second : Field β) : Shape (α × β)
  | .array [] => .error (.length 0 (label ++ " with 2 elements"))
  | .array (v :: vs) =>
    match first.shape v with
    | .error e => .error e
    | .ok a =>
      match vs with
      | [] => .error (.length 1 (label ++ " with 2 elements"))
      | w :: more =>
        match second.shape w with
        | .error e => .error e
        | .ok b =>
          if more.isEmpty then .ok (a, b)
          else .error (.length (more.length + 2) "fewer elements in array")
  | .object members =>
    match readFields first second none none members with
    | .error e => .error e
    | .ok (a, b) =>
      match first.finish a with
      | .error e => .error e
      | .ok a => (second.finish b).map (a, ·)
  | v => .error (.kind v.shown label)

end Shape

end HttpDispatch.Json
