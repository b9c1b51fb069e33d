import HttpDispatch.Text.Utf8

/-!
# Small operations on text

Trimming, cutting and comparing as header fields, paths and settings need them. All of them are
stated on the list of characters, so that their laws are laws of lists.
-/

namespace HttpDispatch.Text

/-- White space: the characters with the Unicode property of that name. -/
def isBlank (c : Char) : Bool :=
  let n := c.toNat
  (0x09 ≤ n && n ≤ 0x0D) || n = 0x20 || n = 0x85 || n = 0xA0 || n = 0x1680 ||
    (0x2000 ≤ n && n ≤ 0x200A) || n = 0x2028 || n = 0x2029 || n = 0x202F || n = 0x205F ||
    n = 0x3000

def dropBlankEnd (cs : List Char) : List Char := (cs.reverse.dropWhile isBlank).reverse

def trimChars (cs : List Char) : List Char := dropBlankEnd (cs.dropWhile isBlank)

def trim (s : String) : String := String.ofList (trimChars s.toList)

def lower (s : String) : String := String.ofList (s.toList.map Char.toLower)

def sameLetters (a b : String) : Bool := a.toList.map Char.toLower == b.toList.map Char.toLower

/-- The characters before and after the first `sep`; `none` if there is no `sep`. -/
def cutChars (sep : Char) : List Char → Option (List Char × List Char)
  | [] => none
  | c :: cs => if c = sep then some ([], cs) else (cutChars sep cs).map fun (a, b) => (c :: a, b)

def cut (sep : Char) (s : String) : Option (String × String) :=
  (cutChars sep s.toList).map fun (a, b) => (String.ofList a, String.ofList b)

def before (sep : Char) (s : String) : String :=
  String.ofList (s.toList.takeWhile (· ≠ sep))

/-- The pieces of `s` between occurrences of `sep`: one more than there are occurrences. -/
def split (sep : Char) (s : String) : List String := (s.toList.splitOn sep).map String.ofList

/-- What follows `start` at the beginning of `s`; `none` if `s` does not begin with it. -/
def dropStart? (start s : String) : Option String :=
  (start.toList.isPrefixOf? s.toList).map String.ofList

/-- What precedes `tail` at the end of `s`; `none` if `s` does not end with it. -/
def dropEnd? (tail s : String) : Option String :=
  (tail.toList.isSuffixOf? s.toList).map String.ofList

def startsWith (c : Char) (s : String) : Bool := s.toList.head? == some c

def dropEndWhile (c : Char) (s : String) : String :=
  String.ofList (s.toList.reverse.dropWhile (· = c)).reverse

def join (sep : String) (parts : List String) : String := String.intercalate sep parts

end HttpDispatch.Text
