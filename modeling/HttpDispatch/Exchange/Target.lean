import HttpDispatch.Text.Basic

/-!
# Request targets

The target of a request line is a path with a query, or a whole address, of which only the path and
the query count, or a star for the server as a whole.
-/

namespace HttpDispatch

structure Target where
  path : String
  query : Option String
deriving DecidableEq, Repr

namespace Target

/-- What follows the first occurrence of the marks between a scheme and an authority. -/
def afterScheme? : List Char → Option (List Char)
  | [] => none
  | ':' :: '/' :: '/' :: rest => some rest
  | _ :: cs => afterScheme? cs

def endsAuthority (c : Char) : Bool := c = '/' || c = '?'

/-- The target in its own form: a fragment does not belong to the path. -/
def ofOrigin (cs : List Char) : Target :=
  match Text.cutChars '?' cs with
  | some (path, query) =>
    ⟨String.ofList (path.takeWhile (· ≠ '#')), some (String.ofList query)⟩
  | none => ⟨String.ofList (cs.takeWhile (· ≠ '#')), none⟩

/-- The target that follows the authority of a whole address. -/
def ofAddressEnd : List Char → Target
  | [] => ⟨"/", none⟩
  | '?' :: query => ⟨"/", some (String.ofList query)⟩
  | cs => ofOrigin cs

/-- The target that `s` writes; `none` if it has none of the forms. -/
def ofString? (s : String) : Option Target :=
  if Text.startsWith '/' s || s = "*" then some (ofOrigin s.toList)
  else (afterScheme? s.toList).map fun rest => ofAddressEnd (rest.dropWhile (!endsAuthority ·))

end Target

end HttpDispatch
