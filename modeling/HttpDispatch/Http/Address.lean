import HttpDispatch.Text.Numeral

/-!
# Socket addresses

The address of a peer is an Internet address of either kind and the number of an endpoint on it.
Addresses of the longer kind stand in brackets; a run of zero groups may be left out where two
colons stand, and the text of an address leaves out its longest such run.
-/

namespace HttpDispatch

inductive IpAddress where
  | short (octets : List Nat)
  /-- Eight groups of two octets, and the zone if it is not zero. -/
  | long (groups : List Nat) (zone : Nat)
deriving DecidableEq, Repr

structure SocketAddress where
  ip : IpAddress
  /-- The number of the endpoint on it. -/
  endpoint : Nat
deriving DecidableEq, Repr

namespace IpAddress

/-- A number below `bound` of at most `most` digits at the start of `cs`, and what follows it. -/
def number? (base most bound : Nat) (leadingZero : Bool) (cs : List Char) :
    Option (Nat × List Char) :=
  let digits := cs.takeWhile fun c => (Numeral.digitIn? base c).isSome
  if most < digits.length || (!leadingZero && 1 < digits.length && digits.head? == some '0') then
    none
  else ((Numeral.read? base digits).filter (· < bound)).map (·, cs.drop digits.length)

def octets? : Nat → List Char → Option (List Nat × List Char)
  | 0, cs => some ([], cs)
  | count + 1, cs =>
    match number? 10 3 256 false cs with
    | none => none
    | some (d, rest) =>
      if count = 0 then some ([d], rest)
      else match rest with
        | '.' :: rest => (octets? count rest).map fun (ds, rest) => (d :: ds, rest)
        | _ => none

/-- As many groups with colons between them as there are, at most the given number, and whether the
last two were written as octets. -/
def groups (first : Bool) : Nat → List Char → List Nat × Bool × List Char
  | 0, cs => ([], false, cs)
  | count + 1, cs =>
    match (if first then some cs else match cs with
      | ':' :: rest => some rest
      | _ => none) with
    | none => ([], false, cs)
    | some body =>
      match (if count = 0 then none else octets? 4 body) with
      | some ([a, b, c, d], rest) => ([a * 256 + b, c * 256 + d], true, rest)
      | _ =>
        match number? 16 4 65536 true body with
        | none => ([], false, cs)
        | some (g, rest) =>
          let (gs, dotted, rest) := groups false count rest
          (g :: gs, dotted, rest)

def allGroups? (cs : List Char) : Option (List Nat × List Char) :=
  match groups true 8 cs with
  | (head, dotted, rest) =>
    if head.length = 8 then some (head, rest)
    else if dotted then none
    else match rest with
      | ':' :: ':' :: rest =>
        match groups true (7 - head.length) rest with
        | (tail, _, rest) =>
          some (head ++ List.replicate (8 - head.length - tail.length) 0 ++ tail, rest)
      | _ => none

def zeros (gs : List Nat) : Nat := (gs.takeWhile (· = 0)).length

/-- The place and length of the first of the longest runs of zeros. -/
def longestZeros : List Nat → Nat × Nat
  | [] => (0, 0)
  | g :: gs =>
    let here := zeros (g :: gs)
    let (at_, most) := longestZeros gs
    if most ≤ here then (0, here) else (at_ + 1, most)

def groupsText (gs : List Nat) : String := Text.join ":" (gs.map Numeral.hex)

def longText (gs : List Nat) : String :=
  match gs with
  | [0, 0, 0, 0, 0, 0xFFFF, a, b] =>
    "::ffff:" ++ Text.join "." ([a / 256, a % 256, b / 256, b % 256].map toString)
  | _ =>
    let (at_, count) := longestZeros gs
    if 1 < count then groupsText (gs.take at_) ++ "::" ++ groupsText (gs.drop (at_ + count))
    else groupsText gs

end IpAddress

namespace SocketAddress

def endpoint? (cs : List Char) : Option Nat :=
  match IpAddress.number? 10 cs.length 65536 true cs with
  | some (n, []) => some n
  | _ => none

/-- What follows an address of the longer kind: the zone if there is one, the bracket and the
endpoint. -/
def longEnd? (cs : List Char) : Option (Nat × Nat) :=
  match (match cs with
    | '%' :: rest => IpAddress.number? 10 rest.length UInt32.size true rest
    | _ => some (0, cs)) with
  | some (zone, ']' :: ':' :: rest) => (endpoint? rest).map (zone, ·)
  | _ => none

def ofString? (s : String) : Option SocketAddress :=
  match s.toList with
  | '[' :: cs =>
    match IpAddress.allGroups? cs with
    | none => none
    | some (gs, rest) => (longEnd? rest).map fun (zone, n) => ⟨.long gs zone, n⟩
  | cs =>
    match IpAddress.octets? 4 cs with
    | some (ds, ':' :: rest) => (endpoint? rest).map fun n => ⟨.short ds, n⟩
    | _ => none

def text (a : SocketAddress) : String :=
  match a.ip with
  | .short ds => Text.join "." (ds.map toString) ++ ":" ++ toString a.endpoint
  | .long gs zone =>
    "[" ++ IpAddress.longText gs ++ (if zone = 0 then "" else "%" ++ toString zone) ++ "]:" ++
      toString a.endpoint

instance : ToString SocketAddress := ⟨text⟩

end SocketAddress

end HttpDispatch
