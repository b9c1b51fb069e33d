import HttpDispatch.Route.Pattern

/-!
# Route index

The routes of one method are kept in buckets by their number of segments; all numbers from a cap on
share the last bucket. A lookup counts the components of the path, and looks through that bucket
only, in the order of registration. The first route that matches wins.
-/

namespace HttpDispatch

/-- A route: a pattern, the roles it asks for, and what serves it. -/
structure RouteEntry (H : Type) where
  method : String
  pattern : PathPattern
  /-- The roles it asks for, ascending and without repetition. -/
  roles : List String
  handler : H

structure RouteIndex (H : Type) where
  /-- Bucket `i` holds the routes of `i` segments, the last one those of `i` or more. -/
  buckets : List (List (RouteEntry H))
  nonempty : buckets ≠ []

namespace RouteIndex

variable {H : Type}

/-- No routes, in buckets up to the cap. Memory is idealised: a cap with so many buckets that they
would fill more than half of the address space, for which building the index panics, is like any
other. -/
def empty (cap : Nat) : RouteIndex H := ⟨List.replicate (cap + 1) [], by simp⟩

def cap (i : RouteIndex H) : Nat := i.buckets.length - 1

def bucketFor (i : RouteIndex H) (segments : Nat) : Nat := min segments i.cap

def bucket (i : RouteIndex H) (slot : Nat) : List (RouteEntry H) := i.buckets.getD slot []

def add (i : RouteIndex H) (e : RouteEntry H) : RouteIndex H where
  buckets := i.buckets.modify (i.bucketFor e.pattern.length) (· ++ [e])
  nonempty := by
    have := i.nonempty
    simpa [← List.length_pos_iff] using this

def candidates (i : RouteIndex H) (path : String) : List (RouteEntry H) :=
  i.bucket (i.bucketFor (Path.length path))

/-- The first route registered in the bucket of `path` that matches it. -/
def find? (i : RouteIndex H) (path : String) : Option (RouteEntry H) :=
  (i.candidates path).find? fun e => e.pattern.accepts path

def toList (i : RouteIndex H) : List (RouteEntry H) := i.buckets.flatten

def size (i : RouteIndex H) : Nat := i.toList.length

def isEmpty (i : RouteIndex H) : Bool := i.buckets.all List.isEmpty

end RouteIndex

end HttpDispatch
