import HttpDispatch.Text.Numeral
import HttpDispatch.Yaml.Cursor

/-!
# Scalars

The texts that a YAML document holds, in their three ways of writing: plain, between quotes, and as
a block of lines. In the first two a single line break stands for a space, and of several each but
the first stands for itself; so it is in a folded block.
-/

namespace HttpDispatch.Yaml

structure Gap where
  /-- The blanks since the last word, on its own line; they are in reverse. -/
  blanks : List Char := []
  broken : Bool := false
  escaped : Bool := false
  /-- How many lines have ended since then. -/
  more : Nat := 0

namespace Gap

/-- With one more blank: on later lines they count for nothing. -/
def blank (g : Gap) (ch : Char) : Gap :=
  if g.broken then g else { g with blanks := ch :: g.blanks }

def newline (g : Gap) : Gap :=
  if g.broken then { g with more := g.more + 1 } else { broken := true }

def chars (g : Gap) : List Char :=
  if !g.broken then g.blanks
  else if g.more = 0 && !g.escaped then [' ']
  else List.replicate g.more '\n'

end Gap

/-- A scalar that was read: its characters in reverse, whether the last thing passed over was the
end of a line, and the place after it. -/
structure ScalarEnd where
  chars : List Char
  broken : Bool
  cursor : Cursor

namespace Scalar

def isFlowMark (ch : Char) : Bool := [',', '[', ']', '\x7b', '\x7d'].contains ch

/-- A plain scalar from a place in it, after `acc` and a gap. Lines that are indented by less than
`indent` do not belong to it. -/
def readPlain (flow : Bool) (indent : Int) : Nat → List Char → Gap → Cursor → Option ScalarEnd
  | 0, _, _, _ => none
  | fuel + 1, acc, gap, c =>
    let ended : Option ScalarEnd := some ⟨acc, gap.broken, c⟩
    match c.rest with
    | [] => ended
    | ch :: rest =>
      if ch = '\n' then readPlain flow indent fuel acc gap.newline c.next
      else if ch = '\t' && gap.broken && c.column < indent then none
      else if Cursor.isBlank ch then readPlain flow indent fuel acc (gap.blank ch) c.next
      else
        let fresh := gap.broken || !gap.blanks.isEmpty
        if fresh && (c.atMark || ch = '#' || (!flow && gap.broken && c.column < indent)) then ended
        else if ch = ':' && Cursor.atGap rest then ended
        else if flow && ch = ':' && (rest.head?.any fun d => d = '?' || isFlowMark d) then none
        else if flow && isFlowMark ch then ended
        else readPlain flow indent fuel (ch :: (gap.chars ++ acc)) {} c.next

def escape? : Char → Option Char
  | '0' => some (.ofNat 0)
  | 'a' => some (.ofNat 7)
  | 'b' => some (.ofNat 8)
  | 't' | '\t' => some '\t'
  | 'n' => some '\n'
  | 'v' => some (.ofNat 11)
  | 'f' => some (.ofNat 12)
  | 'r' => some '\r'
  | 'e' => some (.ofNat 27)
  | ' ' => some ' '
  | '"' => some '"'
  | '\'' => some '\''
  | '/' => some '/'
  | '\\' => some '\\'
  | 'N' => some (.ofNat 0x85)
  | '_' => some (.ofNat 0xA0)
  | 'L' => some (.ofNat 0x2028)
  | 'P' => some (.ofNat 0x2029)
  | _ => none

def escapeDigits : Char → Nat
  | 'x' => 2
  | 'u' => 4
  | 'U' => 8
  | _ => 0

def charOf? (n : Nat) : Option Char := if n.isValidChar then some (Char.ofNat n) else none

/-- What a backslash and the characters after it stand for, and how many these are. -/
def readEscape? (cs : List Char) : Option (Char × Nat) :=
  match cs with
  | [] => none
  | letter :: rest =>
    match escape? letter with
    | some ch => some (ch, 1)
    | none =>
      let count := escapeDigits letter
      let digits := rest.take count
      if count = 0 || digits.length < count then none
      else ((Numeral.digits? 16 0 digits).bind charOf?).map (·, count + 1)

def readQuoted (double : Bool) : Nat → List Char → Gap → Cursor → Option ScalarEnd
  | 0, _, _, _ => none
  | fuel + 1, acc, gap, c =>
    if c.atMark then none
    else
      let joined := gap.chars ++ acc
      match double, c.rest with
      | _, [] => none
      | _, '\n' :: _ => readQuoted double fuel acc gap.newline c.next
      | false, '\'' :: '\'' :: _ => readQuoted double fuel ('\'' :: joined) {} (c.skip 2)
      | false, '\'' :: _ => some ⟨joined, false, c.next⟩
      | true, '"' :: _ => some ⟨joined, false, c.next⟩
      | true, '\\' :: '\n' :: _ =>
        readQuoted double fuel joined { broken := true, escaped := true } (c.skip 2)
      | true, '\\' :: rest =>
        match readEscape? rest with
        | none => none
        | some (ch, n) => readQuoted double fuel (ch :: joined) {} (c.skip (n + 1))
      | _, ch :: _ =>
        if Cursor.isBlank ch then readQuoted double fuel acc (gap.blank ch) c.next
        else readQuoted double fuel (ch :: joined) {} c.next

/-- How the line breaks at the end of a block are treated. -/
inductive Chomping where
  | strip
  | clip
  | keep
deriving DecidableEq

/-- The signs after the mark of a block: how its end is treated, and by how much it is indented. -/
def readBlockSigns (c : Cursor) : Option (Chomping × Option Nat × Cursor) :=
  let chomping? (ch : Char) : Option Chomping :=
    if ch = '+' then some .keep else if ch = '-' then some .strip else none
  let indent? (ch : Char) : Option Nat := if ch.isDigit then some (ch.toNat - '0'.toNat) else none
  match c.rest with
  | [] => some (.clip, none, c)
  | a :: rest =>
    match chomping? a, indent? a with
    | some k, _ =>
      match rest.head?.bind indent? with
      | some 0 => none
      | some n => some (k, some n, c.skip 2)
      | none => some (k, none, c.next)
    | none, some 0 => none
    | none, some n =>
      match rest.head?.bind chomping? with
      | some k => some (k, some n, c.skip 2)
      | none => some (.clip, some n, c.next)
    | none, none => some (.clip, none, c)

/-- The end of the line with the mark of a block: blanks, and perhaps a comment. -/
def readBlockHead (c : Cursor) : Option Cursor :=
  let c := c.skipWhile Cursor.isBlank
  let c := if c.rest.head? = some '#' then c.skipWhile (· ≠ '\n') else c
  if Cursor.atLineEnd c.rest then some c.next else none

/-- The blank lines from here on: their number, the largest indentation among them and the line
after them, and the place of the first character there. A given indentation is not exceeded. -/
def readBlockBreaks (indent : Option Nat) : Nat → Nat → Nat → Cursor → Option (Nat × Nat × Cursor)
  | 0, _, _, _ => none
  | fuel + 1, count, widest, c =>
    let c := c.skip (((c.rest.takeWhile (· = ' ')).length).min
      ((indent.map (· - c.column)).getD c.rest.length))
    let widest := max widest c.column
    match c.rest with
    | '\t' :: _ => if indent.all (c.column < ·) then none else some (count, widest, c)
    | '\n' :: _ => readBlockBreaks indent fuel (count + 1) widest c.next
    | _ => some (count, widest, c)

/-- What is kept of the end of a block, in reverse: the break of the last line, and `count` more. -/
def blockEnd (chomping : Chomping) (last : List Char) (count : Nat) : List Char :=
  match chomping with
  | .strip => []
  | .clip => last
  | .keep => List.replicate count '\n' ++ last

/-- The lines of a block, after `acc`, the break of the last line and `count` more breaks. -/
def readBlockLines (folded : Bool) (chomping : Chomping) (indent : Nat) :
    Nat → List Char → List Char → Bool → Nat → Cursor → Option ScalarEnd
  | 0, _, _, _, _, _ => none
  | fuel + 1, acc, last, wasBlank, count, c =>
    if c.column ≠ indent || c.rest.isEmpty then
      some ⟨blockEnd chomping last count ++ acc, true, c⟩
    else
      let isBlank := c.rest.head?.any Cursor.isBlank
      let glue := if folded && !last.isEmpty && !wasBlank && !isBlank then
          (if count = 0 then [' '] else [])
        else last
      let line := c.rest.takeWhile (· ≠ '\n')
      let c := c.skip line.length
      let acc := line.reverse ++ (List.replicate count '\n' ++ glue ++ acc)
      let last := if c.rest.isEmpty then [] else ['\n']
      match readBlockBreaks (some indent) (c.rest.length + 1) 0 0 c.next with
      | none => none
      | some (count, _, c) => readBlockLines folded chomping indent fuel acc last isBlank count c

/-- A block, from the place after its mark. The lines around it are indented by `parent`. -/
def readBlock (folded : Bool) (parent : Int) (c : Cursor) : Option ScalarEnd :=
  match readBlockSigns c with
  | none => none
  | some (chomping, signed, c) =>
    match readBlockHead c with
    | none => none
    | some c =>
      let indent := signed.map fun n => if 0 ≤ parent then parent.toNat + n else n
      match readBlockBreaks indent (c.rest.length + 1) 0 0 c with
      | none => none
      | some (count, widest, c) =>
        let indent := indent.getD (max (max widest (parent + 1).toNat) 1)
        readBlockLines folded chomping indent (c.rest.length + 1) [] [] false count c

end Scalar

end HttpDispatch.Yaml
