import HttpDispatch.Yaml.Scalar
import HttpDispatch.Yaml.Token

/-!
# Lexing

A YAML text as a list of tokens. Whether a scalar is a key is known only at the colon after it, so
that the lexer remembers where a key may have begun, one place for each level of brackets; when the
colon comes, the mark of the key is put there, and in block style a mapping starts there, if the key
is indented by more than what is around it. A collection in block style ends where a line is
indented by less.
-/

namespace HttpDispatch.Yaml

structure KeyStart where
  /-- Whether nothing else could begin there. -/
  required : Bool
  number : Nat
  line : Nat
  index : Nat
  column : Nat

structure Lexer where
  cursor : Cursor
  tokens : Array Token := #[]
  /-- The indentation of the innermost collection in block style, less than any column if there is
  none. -/
  indent : Int := -1
  /-- The indentations around it, from the inside. -/
  outer : List Int := []
  keyAllowed : Bool := true
  /-- Where the key on this level of brackets may have begun. -/
  start : Option KeyStart := none
  /-- The same for the levels around this one, from the inside. -/
  outerStarts : List (Option KeyStart) := []

namespace Lexer

def inFlow (l : Lexer) : Bool := !l.outerStarts.isEmpty

def push (l : Lexer) (t : Token) : Lexer := { l with tokens := l.tokens.push t }

def moved (l : Lexer) (c : Cursor) : Lexer := { l with cursor := c }

def take (l : Lexer) (n : Nat) (t : Token) : Lexer := (l.moved (l.cursor.skip n)).push t

/-- The cursor at the next token, and whether a key may begin there: blanks, line breaks and
comments are passed over. A tab is no indentation. -/
def skipGap (flow : Bool) : Nat → Bool → Cursor → Bool × Cursor
  | 0, allowed, c => (allowed, c)
  | fuel + 1, allowed, c =>
    match c.rest with
    | ' ' :: _ => skipGap flow fuel allowed c.next
    | '\t' :: _ => if flow || !allowed then skipGap flow fuel allowed c.next else (allowed, c)
    | '#' :: _ => skipGap flow fuel allowed (c.skipWhile (· ≠ '\n'))
    | '\n' :: _ => skipGap flow fuel (allowed || !flow) c.next
    | _ => (allowed, c)

/-- A key ends on the line on which it began, and is not too long. -/
def isStale (c : Cursor) (k : KeyStart) : Bool := k.line < c.line || k.index + 1024 < c.index

/-- Without a key that cannot be one any more; it is a fault if it had to be one. -/
def dropKey (k : Option KeyStart) : Option (Option KeyStart) :=
  if k.any (·.required) then none else some none

def dropStale (l : Lexer) : Option Lexer := do
  let check (k : Option KeyStart) : Option (Option KeyStart) :=
    if k.any (isStale l.cursor) then dropKey k else some k
  return { l with start := ← check l.start, outerStarts := ← l.outerStarts.mapM check }

def saveKey (l : Lexer) : Option Lexer :=
  if !l.keyAllowed then some l
  else do
    let _ ← dropKey l.start
    let c := l.cursor
    let required := !l.inFlow && l.indent = c.column
    return { l with start := some ⟨required, l.tokens.size, c.line, c.index, c.column⟩ }

def removeKey (l : Lexer) : Option Lexer := do return { l with start := ← dropKey l.start }

/-- Starts a collection in block style before the token of the given number, if the column is larger
than the indentation. -/
def indentTo (l : Lexer) (column number : Nat) (t : Token) : Lexer :=
  if l.inFlow || column ≤ l.indent then l
  else { l with
    outer := l.indent :: l.outer
    indent := column
    tokens := l.tokens.insertIdxIfInBounds number t }

def endBlocks (tokens : Array Token) (column indent : Int) : List Int → Array Token × Int × List Int
  | [] => (tokens, indent, [])
  | i :: outer =>
    if column < indent then endBlocks (tokens.push .blockEnd) column i outer
    else (tokens, indent, i :: outer)

def dedentTo (l : Lexer) (column : Int) : Lexer :=
  if l.inFlow then l
  else
    let (tokens, indent, outer) := endBlocks l.tokens column l.indent l.outer
    { l with tokens, indent, outer }

/-- A token that no key can contain, and whether a key may follow it. -/
def mark (l : Lexer) (keyAllowed : Bool) (n : Nat) (t : Token) : Option Lexer := do
  return { ← l.removeKey with keyAllowed }.take n t

def document (l : Lexer) (t : Token) : Option Lexer := (l.dedentTo (-1)).mark false 3 t

def openFlow (l : Lexer) (t : Token) : Option Lexer := do
  let l ← l.saveKey
  return { l with
    outerStarts := l.start :: l.outerStarts, start := none, keyAllowed := true }.take 1 t

def closeFlow (l : Lexer) (t : Token) : Option Lexer := do
  let l ← l.removeKey
  let l := match l.outerStarts with
    | k :: outer => { l with start := k, outerStarts := outer }
    | [] => l
  return { l with keyAllowed := false }.take 1 t

def startBlock (l : Lexer) (t : Token) : Option Lexer :=
  if l.inFlow then some l
  else if !l.keyAllowed then none
  else some (l.indentTo l.cursor.column l.tokens.size t)

def entry (l : Lexer) : Option Lexer := do (← l.startBlock .sequenceStart).mark true 1 .entry

def key (l : Lexer) : Option Lexer := do
  let l ← l.startBlock .mappingStart
  l.mark (!l.inFlow) 1 .key

/-- The mark of a value. What may have been a key before it is one. -/
def value (l : Lexer) : Option Lexer :=
  match l.start with
  | some k =>
    let l := { l with tokens := l.tokens.insertIdxIfInBounds k.number .key }
    some ({ l.indentTo k.column k.number .mappingStart with
      start := none, keyAllowed := false }.take 1 .value)
  | none => do
    let l ← l.startBlock .mappingStart
    return { l with keyAllowed := !l.inFlow }.take 1 .value

def isWord (ch : Char) : Bool := ch.isAlphanum || ch = '-' || ch = '_'

def name (l : Lexer) (token : String → Token) : Option Lexer := do
  let l ← l.saveKey
  let word := l.cursor.next.rest.takeWhile isWord
  let rest := l.cursor.next.rest.drop word.length
  let ends :=
    Cursor.atGap rest || rest.head?.any fun ch => "?:,]\x7d%@".toList.contains ch || ch.toNat = 0x60
  if word.isEmpty || !ends then none
  else return { l with keyAllowed := false }.take (word.length + 1) (token (String.ofList word))

/-- Whether a tag may hold the character; within angle brackets it may hold more. -/
def isTagChar (verbatim : Bool) (ch : Char) : Bool :=
  isWord ch || ";/?:@&=+$.!~*'()%".toList.contains ch || (verbatim && [',', '[', ']'].contains ch)

def percentsValid : List Char → Bool
  | '%' :: a :: b :: rest => (Numeral.digits? 16 0 [a, b]).isSome && percentsValid rest
  | '%' :: _ => false
  | _ :: rest => percentsValid rest
  | [] => true

def readTag? (cs : List Char) : Option (Nat × String) :=
  match cs with
  | '!' :: '<' :: rest =>
    let uri := rest.takeWhile (isTagChar true)
    if uri.isEmpty || !percentsValid uri || (rest.drop uri.length).head? ≠ some '>' then none
    else some (uri.length + 3, "")
  | '!' :: rest =>
    let word := rest.takeWhile isWord
    match rest.drop word.length with
    | '!' :: more =>
      let suffix := more.takeWhile (isTagChar false)
      if suffix.isEmpty || !percentsValid suffix then none
      else some (word.length + 2 + suffix.length, String.ofList ('!' :: word ++ ['!']))
    | _ =>
      let suffix := rest.takeWhile (isTagChar false)
      if percentsValid suffix then some (suffix.length + 1, "!") else none
  | _ => none

def tag (l : Lexer) : Option Lexer := do
  let l ← l.saveKey
  let (length, handle) ← readTag? l.cursor.rest
  let after := l.cursor.rest.drop length
  if Cursor.atGap after || (l.inFlow && after.head? = some ',') then
    return { l with keyAllowed := false }.take length (.tag handle)
  else none

def scalar (l : Lexer) (plain keyAllowed : Bool) (e : ScalarEnd) : Lexer :=
  { (l.moved e.cursor).push (.scalar (String.ofList e.chars.reverse) plain) with keyAllowed }

def block (l : Lexer) (folded : Bool) : Option Lexer := do
  let l ← l.removeKey
  return l.scalar false true (← Scalar.readBlock folded l.indent l.cursor.next)

def quoted (l : Lexer) (double : Bool) : Option Lexer := do
  let l ← l.saveKey
  let c := l.cursor.next
  return l.scalar false false (← Scalar.readQuoted double (c.rest.length + 1) [] {} c)

def plain (l : Lexer) : Option Lexer := do
  let l ← l.saveKey
  let e ← Scalar.readPlain l.inFlow (l.indent + 1) (l.cursor.rest.length + 1) [] {} l.cursor
  return l.scalar true e.broken e

def readVersion? (cs : List Char) : Option (Token × Nat) :=
  let major := cs.takeWhile Char.isDigit
  match cs.drop major.length with
  | '.' :: rest =>
    let minor := rest.takeWhile Char.isDigit
    do return (.version (← Numeral.read? 10 major) (← Numeral.read? 10 minor),
      major.length + 1 + minor.length)
  | _ => none

def readHandle? (cs : List Char) : Option (Token × Nat) :=
  match cs with
  | '!' :: rest =>
    let word := rest.takeWhile isWord
    let closed := (rest.drop word.length).head? = some '!'
    if !closed && !word.isEmpty then none
    else
      let handle := '!' :: word ++ (if closed then ['!'] else [])
      let after := cs.drop handle.length
      let gap := after.takeWhile Cursor.isBlank
      let uri := (after.drop gap.length).takeWhile (isTagChar true)
      if gap.isEmpty || uri.isEmpty then none
      else some (.handle (String.ofList handle), handle.length + gap.length + uri.length)
  | _ => none

def directive (l : Lexer) : Option Lexer := do
  let l ← (l.dedentTo (-1)).removeKey
  let name := l.cursor.next.rest.takeWhile isWord
  let c := l.cursor.skip (name.length + 1)
  let args := c.skipWhile Cursor.isBlank
  let (t, length) ← if name = "YAML".toList then readVersion? args.rest
    else if name = "TAG".toList then readHandle? args.rest
    else none
  let after := args.skip length
  if !Cursor.atGap c.rest || !Cursor.atGap after.rest then none
  else return { (l.moved (← Scalar.readBlockHead after)).push t with keyAllowed := false }

def step (l : Lexer) : Option Lexer :=
  let ch := l.cursor.rest.head?.getD ' '
  let after := l.cursor.rest.drop 1
  if l.cursor.column = 0 && ch = '%' then l.directive
  else if l.cursor.atMark then l.document (if ch = '-' then .documentStart else .documentEnd)
  else match ch with
    | '[' => l.openFlow .flowSequenceStart
    | '\x7b' => l.openFlow .flowMappingStart
    | ']' => l.closeFlow .flowSequenceEnd
    | '\x7d' => l.closeFlow .flowMappingEnd
    | ',' => l.mark true 1 .comma
    | '*' => l.name .alias
    | '&' => l.name .anchor
    | '!' => l.tag
    | '\'' => l.quoted false
    | '"' => l.quoted true
    | '-' => if Cursor.atGap after then l.entry else l.plain
    | '?' => if l.inFlow || Cursor.atGap after then l.key else l.plain
    | ':' => if l.inFlow || Cursor.atGap after then l.value else l.plain
    | '|' => if l.inFlow then none else l.block false
    | '>' => if l.inFlow then none else l.block true
    | '#' | '%' | '@' | '\t' => none
    | _ => if ch.toNat = 0x60 then none else l.plain

def run : Nat → Lexer → Option (Array Token)
  | 0, _ => none
  | fuel + 1, l => do
    let (keyAllowed, cursor) := skipGap l.inFlow (l.cursor.rest.length + 1) l.keyAllowed l.cursor
    let l ← { l with keyAllowed, cursor }.dropStale
    if cursor.rest.isEmpty then
      let l ← (l.dedentTo (-1)).removeKey
      return l.tokens
    else run fuel (← (l.dedentTo cursor.column).step)

end Lexer

def Token.ofString? (s : String) : Option (List Token) :=
  (Cursor.ofString? s).bind fun cursor =>
    (Lexer.run (cursor.rest.length + 1) { cursor }).map Array.toList

end HttpDispatch.Yaml
