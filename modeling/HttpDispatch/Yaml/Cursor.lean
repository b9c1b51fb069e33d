/-!
# Cursors

A place in a YAML text: what is left of it, and the line and the column of the next character. Line
breaks have been made line feeds before.
-/

namespace HttpDispatch.Yaml

structure Cursor where
  rest : List Char
  index : Nat := 0
  line : Nat := 0
  column : Nat := 0

namespace Cursor

def next (c : Cursor) : Cursor :=
  match c.rest with
  | [] => c
  | '\n' :: rest => { rest, index := c.index + 1, line := c.line + 1 }
  | _ :: rest => { c with rest, index := c.index + 1, column := c.column + 1 }

def skip (c : Cursor) : Nat → Cursor
  | 0 => c
  | n + 1 => c.next.skip n

def skipWhile (c : Cursor) (p : Char → Bool) : Cursor := c.skip (c.rest.takeWhile p).length

def isBlank (ch : Char) : Bool := ch = ' ' || ch = '\t'

def atLineEnd : List Char → Bool
  | [] => true
  | ch :: _ => ch = '\n'

/-- Whether a text begins with a blank, or ends its line, or ends. -/
def atGap : List Char → Bool
  | [] => true
  | ch :: _ => isBlank ch || ch = '\n'

def atMark (c : Cursor) : Bool :=
  c.column = 0 &&
    match c.rest with
    | '-' :: '-' :: '-' :: rest => atGap rest
    | '.' :: '.' :: '.' :: rest => atGap rest
    | _ => false

def isAllowed (ch : Char) : Bool :=
  let n := ch.toNat
  n = 0x09 || n = 0x0A || n = 0x0D || (0x20 ≤ n && n ≤ 0x7E) || n = 0x85 ||
    (0xA0 ≤ n && n ≤ 0xD7FF) || (0xE000 ≤ n && n ≤ 0xFFFD && n ≠ 0xFEFF) || 0x10000 ≤ n

def joinBreaks : List Char → List Char
  | '\r' :: '\n' :: rest => '\n' :: joinBreaks rest
  | ch :: rest =>
    (if ch = '\r' || ch.toNat = 0x85 || ch.toNat = 0x2028 || ch.toNat = 0x2029 then '\n' else ch) ::
      joinBreaks rest
  | [] => []

/-- The start of a text, after a byte order mark, if it holds nothing that is not allowed. -/
def ofString? (s : String) : Option Cursor :=
  let cs := match s.toList with
    | ch :: rest => if ch.toNat = 0xFEFF then rest else ch :: rest
    | [] => []
  if cs.all isAllowed then some { rest := joinBreaks cs } else none

end Cursor

end HttpDispatch.Yaml
