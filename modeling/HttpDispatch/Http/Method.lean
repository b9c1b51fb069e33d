import HttpDispatch.Text.Basic

/-!
# Methods and protocol versions

A method is any token; only some methods can have routes.
-/

namespace HttpDispatch

def isTokenChar (c : Char) : Bool := c.isAlphanum || "!#$%&'*+-.^_`|~".toList.contains c

def isToken (s : String) : Bool := !s.isEmpty && s.toList.all isTokenChar

/-- The method of a request. Methods are told apart by case. -/
structure Method where
  name : String
  isToken : isToken name = true
deriving DecidableEq, Repr

namespace Method

def ofString? (s : String) : Option Method :=
  if h : HttpDispatch.isToken s then some ⟨s, h⟩ else none

def get : Method := ⟨"GET", by decide⟩

def head : Method := ⟨"HEAD", by decide⟩

def post : Method := ⟨"POST", by decide⟩

end Method

inductive Version where
  | http10
  | http11
  | http2
deriving DecidableEq, Repr

def Version.text : Version → String
  | .http10 => "HTTP/1.0"
  | .http11 => "HTTP/1.1"
  | .http2 => "HTTP/2.0"

end HttpDispatch
