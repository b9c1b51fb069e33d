import HttpDispatch.Route.Path
import HttpDispatch.Url.Percent

/-!
# Path patterns

A template such as `/users/{id}/posts` is read once into a list of segments. A literal segment
matches the same component and no other, letter for letter and without decoding; a parameter matches
any component that is not empty and keeps it under its name. A path matches if it has as many
components as there are segments and each matches its own.
-/

namespace HttpDispatch

inductive PatternError where
  | notAbsolute (template : String)
  | emptyParamName (template : String)
  | malformedSegment (template segment : String)
  | duplicateParam (template name : String)
  /-- A component does not stand for a text. -/
  | undecodable (component : String)
deriving DecidableEq, Repr

def PatternError.message : PatternError → String
  | .notAbsolute t => "path template '" ++ t ++ "' must start with '/'"
  | .emptyParamName t => "path template '" ++ t ++ "' contains an empty parameter name"
  | .malformedSegment t s => "path template '" ++ t ++ "' has a malformed segment '" ++ s ++ "'"
  | .duplicateParam t n =>
    "path template '" ++ t ++ "' declares parameter '" ++ n ++ "' more than once"
  | .undecodable c => "path segment '" ++ c ++ "' is not valid percent-encoded UTF-8"

inductive Segment where
  | literal (text : String)
  | param (name : String)
deriving DecidableEq, Repr

namespace Segment

def accepts : Segment → String → Bool
  | literal text, component => text = component
  | param _, component => component ≠ ""

def name? : Segment → Option String
  | literal _ => none
  | param name => some name

/-- The name between one pair of braces that surround the whole of `cs`. -/
def inBraces? : List Char → Option (List Char)
  | '\x7b' :: cs => if cs.getLast? = some '\x7d' then some cs.dropLast else none
  | _ => none

def read (template : String) (piece : List Char) : Except PatternError Segment :=
  if !piece.contains '\x7b' && !piece.contains '\x7d' then .ok (.literal (String.ofList piece))
  else match inBraces? piece with
    | none => .error (.malformedSegment template (String.ofList piece))
    | some name =>
      if name.contains '\x7b' || name.contains '\x7d' then
        .error (.malformedSegment template (String.ofList piece))
      else if name.isEmpty then .error (.emptyParamName template)
      else .ok (.param (String.ofList name))

def text : Segment → String
  | literal t => t
  | param n => "\x7b" ++ n ++ "\x7d"

end Segment

/-- A template that has been read. -/
structure PathPattern where
  template : String
  segments : List Segment
  trailingSlash : Bool
  /-- Whether a slash at the end of a path has to agree with that of the template. -/
  strict : Bool
deriving DecidableEq, Repr

namespace PathPattern

/-- The pieces of a template: its components, without the empty ones. -/
def pieces (template : String) : List (List Char) :=
  ((Path.body template.toList).splitOn '/').filter (fun p => !p.isEmpty)

/-- Reads the pieces of a template in order. `names` are the parameters read so far. The first
piece at fault decides the error. -/
def readPieces (template : String) (names : List String) :
    List (List Char) → Except PatternError (List Segment)
  | [] => .ok []
  | piece :: rest =>
    match Segment.read template piece with
    | .error e => .error e
    | .ok (.literal t) => (readPieces template names rest).map (.literal t :: ·)
    | .ok (.param n) =>
      if n ∈ names then .error (.duplicateParam template n)
      else (readPieces template (names ++ [n]) rest).map (.param n :: ·)

/-- The pattern of a template. In strict mode a trailing slash is part of the pattern. -/
def compile (template : String) (strict : Bool) : Except PatternError PathPattern :=
  if !Text.startsWith '/' template then .error (.notAbsolute template)
  else (readPieces template [] (pieces template)).map fun segments =>
    { template, segments, strict, trailingSlash := Path.hasTrailingSlash template.toList }

def length (p : PathPattern) : Nat := p.segments.length

def paramNames (p : PathPattern) : List String := p.segments.filterMap Segment.name?

def isLiteral (p : PathPattern) : Bool := p.paramNames.isEmpty

def acceptsAll : List Segment → List String → Bool
  | [], [] => true
  | s :: ss, c :: cs => s.accepts c && acceptsAll ss cs
  | _, _ => false

def accepts (p : PathPattern) (path : String) : Bool :=
  (!p.strict || Path.hasTrailingSlash path.toList == p.trailingSlash) &&
    acceptsAll p.segments (Path.components path)

/-- The values that components give to the parameters among the segments in their places. The first
component at fault decides the error. -/
def bind : List Segment → List String → Except PatternError (List (String × String))
  | .param n :: ss, c :: cs =>
    match Percent.decode? c with
    | none => .error (.undecodable c)
    | some value => (bind ss cs).map ((n, value) :: ·)
  | .literal _ :: ss, _ :: cs => bind ss cs
  | _, _ => .ok []

def params (p : PathPattern) (path : String) : Except PatternError (List (String × String)) :=
  bind p.segments (Path.components path)

/-- The template with exactly one slash before each segment, and one at the end if the template
has one. -/
def canonical (p : PathPattern) : String :=
  match p.segments with
  | [] => "/"
  | ss => String.join (ss.map fun s => "/" ++ s.text) ++ if p.trailingSlash then "/" else ""

end PathPattern

end HttpDispatch
