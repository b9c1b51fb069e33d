import HttpDispatch.Coding.Deflate.Token

/-!
# Prefix codes

A prefix code is given by the length of the code word of each symbol, where zero means that the
symbol has none: among words of one length, and from shorter to longer ones, words are counted
upwards in the order of the symbols. Lengths are chosen from the frequencies of the symbols by
joining the two lightest trees until one is left; where a single symbol and a tree weigh the same,
the symbol is taken first. Words longer than a limit are shortened afterwards, at the cost of
shorter ones.
-/

namespace HttpDispatch.Deflate

abbrev Tree := Nat × List Nat

/-- Takes the lightest of single symbols, ascending by weight, and of trees in the order in which
they were joined. -/
def takeLightest : List Nat → List Tree → Option (Tree × List Nat × List Tree)
  | [], [] => none
  | [], t :: ts => some (t, [], ts)
  | w :: ws, [] => some ((w, [0]), ws, [])
  | w :: ws, t :: ts => if t.1 < w then some (t, w :: ws, ts) else some ((w, [0]), ws, t :: ts)

/-- Joins the two lightest trees until one is left, at most `fuel` times: the depths of
its leaves. -/
def joinAll (fuel : Nat) (weights : List Nat) (trees : List Tree) : List Nat :=
  match fuel with
  | 0 => []
  | fuel + 1 =>
    match takeLightest weights trees with
    | none => []
    | some (a, weights, trees) =>
      match takeLightest weights trees with
      | none => a.2
      | some (b, weights, trees) =>
        joinAll fuel weights (trees ++ [(a.1 + b.1, (a.2 ++ b.2).map (· + 1))])

/-- How many words of each length up to `limit` there are, counted from length zero, if longer ones
are made as short as that. -/
def countLengths (limit : Nat) (depths : List Nat) : Array Nat :=
  Array.ofFn fun (i : Fin (limit + 1)) => (depths.filter fun d => min d limit = i.val).length

/-- The longest length below `limit`, from `i` downwards, that a word has. -/
def longestBelow (counts : Array Nat) : Nat → Nat
  | 0 => 0
  | i + 1 => if counts.getD (i + 1) 0 ≠ 0 then i + 1 else longestBelow counts i

/-- Makes one word of the limit's length and a shorter one into two of the length after the shorter
one's. -/
def rebalance (limit : Nat) (counts : Array Nat) : Array Nat :=
  let i := longestBelow counts (limit - 1)
  let counts := counts.modify limit (· - 1)
  if i = 0 then counts else (counts.modify i (· - 1)).modify (i + 1) (· + 2)

/-- How many words of each length there are, none longer than `limit`. -/
def limitLengths (limit : Nat) (depths : List Nat) : Array Nat :=
  let counts := countLengths limit depths
  if depths.length ≤ 1 then counts
  else
    let used := (List.range (limit + 1)).foldl
      (fun sum i => if i = 0 then sum else sum + (counts.getD i 0 <<< (limit - i))) 0
    (List.range (used - (1 <<< limit))).foldl (fun c _ => rebalance limit c) counts

/-- The lengths of the words of symbols with the given frequencies, none longer than `limit`. The
more frequent a symbol is, the shorter is its word; symbols that do not occur have none. -/
def codeLengths (limit : Nat) (frequencies : List Nat) : List Nat :=
  let used := frequencies.zipIdx.filter (·.1 ≠ 0)
  let sorted := used.mergeSort fun a b => a.1 ≤ b.1
  let depths := match sorted with
    | [_] => [1]
    | _ => joinAll (sorted.length + 1) (sorted.map (·.1)) []
  let counts := limitLengths limit depths
  let lengths := (List.range (limit + 1)).flatMap fun i =>
    if i = 0 then [] else List.replicate (counts.getD i 0) i
  let chosen := (sorted.reverse.map (·.2)).zip lengths
  let table := chosen.foldl (fun (t : Array Nat) (symbol, length) => t.set! symbol length)
    (Array.replicate frequencies.length 0)
  table.toList

def wordBits (word length : Nat) : List Bool :=
  (List.range length).map fun i => word.testBit (length - 1 - i)

def firstWords (lengths : List Nat) : Array Nat :=
  let count (n : Nat) : Nat := (lengths.filter (· = n)).length
  (List.range 16).foldl (fun (t : Array Nat) i =>
    t.push (if i ≤ 1 then 0 else (t.back! + count (i - 1)) * 2)) #[]

def codeWords (lengths : List Nat) : Array (List Bool) :=
  (lengths.foldl (fun (acc : Array Nat × Array (List Bool)) length =>
    if length = 0 then (acc.1, acc.2.push [])
    else (acc.1.modify length (· + 1), acc.2.push (wordBits (acc.1.getD length 0) length)))
    (firstWords lengths, #[])).2

/-- A prefix code laid out for reading: the symbols with words of each length, in order. -/
abbrev SymbolTable := Array (Array Nat)

def SymbolTable.ofLengths (lengths : List Nat) : SymbolTable :=
  lengths.zipIdx.foldl (fun (t : SymbolTable) (length, symbol) => t.modify length (·.push symbol))
    (Array.replicate 16 #[])

/-- Reads one word: `first` is the first word of the given length, and `word` what has been read. -/
def readWord (table : SymbolTable) (fuel length word first : Nat) (bits : List Bool) :
    Option (Nat × List Bool) :=
  match fuel, bits with
  | 0, _ => none
  | _, [] => none
  | fuel + 1, b :: rest =>
    let word := word * 2 + b.toNat
    let symbols := table.getD length #[]
    if h : word - first < symbols.size then
      if first ≤ word then some (symbols[word - first], rest) else none
    else readWord table fuel (length + 1) word ((first + symbols.size) * 2) rest

def readSymbol (table : SymbolTable) (bits : List Bool) : Option (Nat × List Bool) :=
  readWord table 15 1 0 0 bits

end HttpDispatch.Deflate
