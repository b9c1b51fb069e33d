import HttpDispatch.Error

/-!
# Error categories

Errors are sorted into categories, dotted names such as `http.client.404`. A category lies beneath
the one that its name has before the last dot, and everything lies beneath the root, whose name is
empty. Handlers are looked up along this lineage, from the category itself to the root.
-/

namespace HttpDispatch

/-- A dotted name of a kind of error. -/
structure Category where
  name : String
deriving DecidableEq, Repr

namespace Category

def root : Category := ⟨""⟩

/-- The category of the given name, without the dots at its ends. -/
def ofName (s : String) : Category :=
  ⟨String.ofList ((s.toList.dropWhile (· = '.')).reverse.dropWhile (· = '.')).reverse⟩

def ofStatus (s : Status) : Category :=
  let side := if s.isClientError then "client" else if s.isServerError then "server" else "other"
  ⟨"http." ++ side ++ "." ++ toString s.code⟩

def isRoot (c : Category) : Bool := c.name.isEmpty

/-- The part of a name before its last dot: nothing if it has none. -/
def parentChars (cs : List Char) : List Char :=
  (cs.reverse.dropWhile (· ≠ '.')).drop 1 |>.reverse

theorem length_parentChars_lt {cs : List Char} (h : cs ≠ []) :
    (parentChars cs).length < cs.length := by
  have h₁ : (cs.reverse.dropWhile (· ≠ '.')).length ≤ cs.reverse.length :=
    (List.dropWhile_suffix _).length_le
  have h₂ : 0 < cs.length := List.length_pos_iff.2 h
  simp only [parentChars, List.length_reverse, List.length_drop] at *
  omega

/-- The category this one lies directly beneath; the root lies beneath nothing. -/
def parent? (c : Category) : Option Category :=
  if c.isRoot then none else some ⟨String.ofList (parentChars c.name.toList)⟩

/-- The names on the way from the name `cs` to the empty one, both included. -/
def lineageChars : List Char → List (List Char)
  | [] => [[]]
  | c :: cs => (c :: cs) :: lineageChars (parentChars (c :: cs))
termination_by cs => cs.length
decreasing_by exact length_parentChars_lt (List.cons_ne_nil _ _)

/-- The category, then everything it lies beneath, ending with the root. -/
def lineage (c : Category) : List Category :=
  (lineageChars c.name.toList).map fun cs => ⟨String.ofList cs⟩

def describe (c : Category) : String := if c.isRoot then "<root>" else c.name

end Category

/-- Any failure raised while a request is dispatched. -/
inductive DispatchError where
  | http (e : HttpError)
  /-- A failure of the application, in a category of its choice. -/
  | application (category : Category) (reason : String)
  | io (cause : IoError)
  | exchange (cause : ExchangeError)
  | codec (cause : CodecError)
  | panic (reason : String)
deriving DecidableEq, Repr

namespace DispatchError

def category : DispatchError → Category
  | .http e => .ofStatus e.status
  | .application c _ => c
  | .io _ => ⟨"io"⟩
  | .exchange _ => ⟨"exchange"⟩
  | .codec _ => ⟨"codec"⟩
  | .panic _ => ⟨"panic"⟩

def status? : DispatchError → Option Status
  | .http e => some e.status
  | _ => none

def message : DispatchError → String
  | .http e => e.message
  | .application c reason => c.describe ++ ": " ++ reason
  | .io cause => "I/O error: " ++ cause.message
  | .exchange cause => cause.message
  | .codec cause => cause.message
  | .panic reason => "panic: " ++ reason

end DispatchError

end HttpDispatch
