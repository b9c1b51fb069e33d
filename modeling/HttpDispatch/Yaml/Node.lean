import HttpDispatch.Yaml.Lexer

/-!
# Nodes

A YAML document as a tree of scalars, sequences and mappings. Whether a scalar was written without
quotes is kept, since that decides whether it may be a number or a truth value. An alias stands for
the node of its anchor; within that node it stands for nothing that could be read.
-/

namespace HttpDispatch.Yaml

inductive Node where
  | scalar (text : String) (plain : Bool)
  | sequence (items : List Node)
  | mapping (entries : List (Node × Node))
  | cycle
deriving Inhabited

namespace Node

def blank : Node := scalar "" true

structure Input where
  tokens : List Token
  handles : List String := ["", "!", "!!"]
  anchors : List (String × Node) := []

def Input.next (i : Input) : Option Token := i.tokens.head?

def Input.drop (i : Input) : Input := { i with tokens := i.tokens.drop 1 }

/-- The kind of a collection, by which its parts are told apart. -/
inductive Context where
  | blockSequence
  | flatSequence
  | blockMapping
  | flowSequence
  | flowMapping
deriving DecidableEq

/-- Whether nothing is written for a part of the collection if the given token comes next. -/
def Context.isBlankBefore (c : Context) (t : Token) : Bool :=
  match c with
  | blockSequence => [Token.entry, .blockEnd].contains t
  | flatSequence => [Token.entry, .key, .value, .blockEnd].contains t
  | blockMapping => [Token.key, .value, .blockEnd].contains t
  | flowSequence => [Token.value, .comma, .flowSequenceEnd].contains t
  | flowMapping => [Token.value, .comma, .flowMappingEnd].contains t

def Context.isBlock : Context → Bool
  | blockSequence | flatSequence | blockMapping => true
  | flowSequence | flowMapping => false

/-- The anchor and the tag in front of a node, in any order. -/
def readProperties : Nat → Option String → Bool → Input → Option (Option String × Bool × Input)
  | 0, anchor, tagged, i => some (anchor, tagged, i)
  | fuel + 1, anchor, tagged, i =>
    match i.next with
    | some (.anchor name) =>
      if anchor.isSome then some (anchor, tagged, i)
      else readProperties fuel (some name) tagged i.drop
    | some (.tag handle) =>
      if tagged then some (anchor, tagged, i)
      else if i.handles.contains handle then readProperties fuel anchor true i.drop
      else none
    | _ => some (anchor, tagged, i)

/-- Reads a part of a collection: a node or, if the next token shows that nothing is written, the
blank one. -/
def readPart (read : Bool → Bool → Input → Option (Node × Input)) (c : Context) (i : Input) :
    Option (Node × Input) :=
  match i.next with
  | none => none
  | some t => if c.isBlankBefore t then some (blank, i) else read c.isBlock (c = .blockMapping) i

/-- Reads the value of an entry after its mark; without the mark the value is blank. -/
def readValue (read : Bool → Bool → Input → Option (Node × Input)) (c : Context) (i : Input) :
    Option (Node × Input) :=
  match i.next with
  | some .value => readPart read c i.drop
  | _ => some (blank, i)

mutual

/-- Reads a node. In block style, and where a mapping is around it, a sequence need not
be indented. -/
def read : Nat → Bool → Bool → Input → Option (Node × Input)
  | 0, _, _, _ => none
  | fuel + 1, block, flat, i =>
    match i.next with
    | some (.alias name) => (i.anchors.lookup name).map (·, i.drop)
    | _ => do
      let (anchor, tagged, i) ← readProperties 2 none false i
      let opened : Input := match anchor with
        | some name => { i with anchors := (name, .cycle) :: i.anchors }
        | none => i
      let (node, i) ← match i.next with
        | some (.scalar text plain) => some (scalar text plain, opened.drop)
        | some .entry => if flat then readItems fuel .flatSequence [] opened else
            if anchor.isSome || tagged then some (blank, opened) else none
        | some .flowSequenceStart => readFlowItems fuel [] opened.drop
        | some .flowMappingStart => readFlowEntries fuel [] opened.drop
        | some .sequenceStart =>
            if block then readItems fuel .blockSequence [] opened.drop else none
        | some .mappingStart => if block then readEntries fuel [] opened.drop else none
        | _ => if anchor.isSome || tagged then some (blank, opened) else none
      match anchor with
      | some name => return (node, { i with anchors := (name, node) :: i.anchors })
      | none => return (node, i)

/-- Reads the items of a sequence in block style. One that is not indented has no mark
of its end. -/
def readItems : Nat → Context → List Node → Input → Option (Node × Input)
  | 0, _, _, _ => none
  | fuel + 1, c, items, i =>
    match i.next with
    | some .entry => do
      let (item, i) ← readPart (read fuel) c i.drop
      readItems fuel c (item :: items) i
    | some .blockEnd =>
      some (sequence items.reverse, if c = .blockSequence then i.drop else i)
    | _ => if c = .blockSequence then none else some (sequence items.reverse, i)

def readEntries : Nat → List (Node × Node) → Input → Option (Node × Input)
  | 0, _, _ => none
  | fuel + 1, entries, i =>
    match i.next with
    | some .key => do
      let (k, i) ← readPart (read fuel) .blockMapping i.drop
      let (v, i) ← readValue (read fuel) .blockMapping i
      readEntries fuel ((k, v) :: entries) i
    | some .blockEnd => some (mapping entries.reverse, i.drop)
    | _ => none

/-- Reads the items of a sequence in brackets. An item with the mark of a key is a mapping of one
entry. -/
def readFlowItems : Nat → List Node → Input → Option (Node × Input)
  | 0, _, _ => none
  | fuel + 1, items, i =>
    match i.next with
    | some .flowSequenceEnd => some (sequence items.reverse, i.drop)
    | some .key => do
      let (k, i) ← readPart (read fuel) .flowSequence i.drop
      let (v, i) ← readValue (read fuel) .flowSequence i
      readFlowRest fuel (mapping [(k, v)] :: items) i
    | _ => do
      let (item, i) ← read fuel false false i
      readFlowRest fuel (item :: items) i

def readFlowRest : Nat → List Node → Input → Option (Node × Input)
  | 0, _, _ => none
  | fuel + 1, items, i =>
    match i.next with
    | some .flowSequenceEnd => some (sequence items.reverse, i.drop)
    | some .comma => readFlowItems fuel items i.drop
    | _ => none

/-- Reads the entries of a mapping in braces. A key without its mark has no value. -/
def readFlowEntries : Nat → List (Node × Node) → Input → Option (Node × Input)
  | 0, _, _ => none
  | fuel + 1, entries, i =>
    match i.next with
    | some .flowMappingEnd => some (mapping entries.reverse, i.drop)
    | some .key => do
      let (k, i) ← readPart (read fuel) .flowMapping i.drop
      let (v, i) ← readValue (read fuel) .flowMapping i
      readFlowEntriesRest fuel ((k, v) :: entries) i
    | _ => do
      let (k, i) ← read fuel false false i
      readFlowEntriesRest fuel ((k, blank) :: entries) i

def readFlowEntriesRest : Nat → List (Node × Node) → Input → Option (Node × Input)
  | 0, _, _ => none
  | fuel + 1, entries, i =>
    match i.next with
    | some .flowMappingEnd => some (mapping entries.reverse, i.drop)
    | some .comma => readFlowEntries fuel entries i.drop
    | _ => none

end

/-- Reads the directives of a document, each of which may be given once. -/
def readDirectives : Nat → Bool → List String → Input → Option (Bool × Input)
  | 0, _, _, _ => none
  | fuel + 1, versioned, declared, i =>
    match i.next with
    | some (.version major minor) =>
      if versioned || major ≠ 1 || (minor ≠ 1 && minor ≠ 2) then none
      else readDirectives fuel true declared i.drop
    | some (.handle name) =>
      if declared.contains name then none
      else readDirectives fuel versioned (name :: declared)
        { i.drop with handles := name :: i.handles }
    | _ => some (versioned || !declared.isEmpty, i)

/-- Whether nothing is written in a document that has been opened, if the given token comes next. -/
def isDocumentBoundary : Option Token → Bool
  | none | some .documentStart | some .documentEnd | some (.version _ _) | some (.handle _) => true
  | _ => false

def isEnd (i : Input) : Bool := i.tokens.all (· = .documentEnd)

/-- The only document that a list of tokens makes; none if there is nothing at all. -/
def ofTokens? (ts : List Token) : Option (Option Node) := do
  if ts.isEmpty then return none
  let (directed, i) ← readDirectives (ts.length + 1) false [] { tokens := ts }
  let opened := i.next = some .documentStart
  if directed && !opened then none
  else
    let i := if opened then i.drop else i
    if opened && isDocumentBoundary i.next then
      if isEnd i then return some blank else none
    else
      let (node, i) ← read (6 * ts.length + 6) true false i
      if isEnd i then return some node else none

def ofString? (s : String) : Option (Option Node) := (Token.ofString? s).bind ofTokens?

end Node

end HttpDispatch.Yaml
