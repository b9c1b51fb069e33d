import HttpDispatch.Text.Basic

/-!
# Paths

A path is cut into components at its slashes. One leading slash is not part of any component, and
neither is one trailing slash; every other slash separates two components, which may be empty.
-/

namespace HttpDispatch.Path

def dropLeading : List Char → List Char
  | '/' :: cs => cs
  | cs => cs

def endsInSlash (cs : List Char) : Bool := cs.getLast? == some '/'

def dropTrailing (cs : List Char) : List Char := if endsInSlash cs then cs.dropLast else cs

/-- What is left of a path without its leading and its trailing slash. -/
def body (path : List Char) : List Char := dropTrailing (dropLeading path)

/-- Whether a path has a trailing slash besides the leading one. -/
def hasTrailingSlash (path : List Char) : Bool := endsInSlash (dropLeading path)

/-- The components of a path, as characters; the root has none. -/
def componentChars (path : List Char) : List (List Char) :=
  if (body path).isEmpty then [] else (body path).splitOn '/'

def components (path : String) : List String := (componentChars path.toList).map String.ofList

def length (path : String) : Nat := (components path).length

end HttpDispatch.Path
