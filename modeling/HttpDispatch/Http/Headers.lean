import HttpDispatch.Http.Method

/-!
# Header fields

A header map holds fields in the order in which they were added. Names are tokens compared without
regard to case, so they are kept in small letters; a name may occur several times, and the order of
its values is part of the map's meaning. The order of different names is not: every operation is
described by what it does to the list of values under each name, `getAll`.
-/

namespace HttpDispatch

def isFieldName (s : String) : Bool :=
  isToken s && s.toList.all (fun c => !c.isUpper) && s.utf8ByteSize < UInt16.size

structure FieldName where
  text : String
  isName : isFieldName text = true
deriving DecidableEq, Repr

/-- The field name spelled `s` in any mixture of case; `none` unless it is a token. -/
def FieldName.ofString? (s : String) : Option FieldName :=
  if h : isFieldName (Text.lower s) then some ⟨Text.lower s, h⟩ else none

/-- Whether `b` may stand in the value of a field: no control other than the tab. -/
def isValueByte (b : UInt8) : Bool := (0x20 ≤ b && b ≠ 0x7F) || b = 0x09

structure FieldValue where
  bytes : Bytes
  isLegal : bytes.all isValueByte = true
deriving DecidableEq, Repr

namespace FieldValue

/-- The value with the given bytes; `none` if one of them is not allowed. -/
def ofBytes? (b : Bytes) : Option FieldValue :=
  if h : b.all isValueByte then some ⟨b, h⟩ else none

/-- The value with the given text; `none` if it holds a control other than the tab. -/
def ofString? (s : String) : Option FieldValue := ofBytes? (Text.encode s)

/-- The value with the given text, without the bytes that are not allowed. -/
def ofString (s : String) : FieldValue :=
  ⟨(Text.encode s).filter isValueByte, by simp [List.all_filter]⟩

def ofNat (n : Nat) : FieldValue := ofString (toString n)

/-- The value as text; `none` unless it is visible ASCII, blanks and tabs. -/
def text? (v : FieldValue) : Option String :=
  if v.bytes.all (fun b => b < 0x7F) then
    some (String.ofList (v.bytes.map fun b => Char.ofNat b.toNat))
  else none

end FieldValue

/-- A map from field names to lists of values. -/
structure Headers where
  entries : List (FieldName × FieldValue)
deriving DecidableEq, Repr

namespace Headers

def empty : Headers := ⟨[]⟩

instance : Inhabited Headers := ⟨empty⟩

def size (h : Headers) : Nat := h.entries.length

def getAll (h : Headers) (n : FieldName) : List FieldValue :=
  (h.entries.filter (·.1 = n)).map (·.2)

def get? (h : Headers) (n : FieldName) : Option FieldValue := (h.getAll n).head?

def contains (h : Headers) (n : FieldName) : Bool := h.entries.any (·.1 = n)

def append (h : Headers) (n : FieldName) (v : FieldValue) : Headers := ⟨h.entries ++ [(n, v)]⟩

def erase (h : Headers) (n : FieldName) : Headers := ⟨h.entries.filter (·.1 ≠ n)⟩

def insert (h : Headers) (n : FieldName) (v : FieldValue) : Headers := (h.erase n).append n v

/-- With `v` under the name `n`, unless there is a value already. -/
def insertNew (h : Headers) (n : FieldName) (v : FieldValue) : Headers :=
  if h.contains n then h else h.append n v

def names (h : Headers) : List FieldName := (h.entries.map (·.1)).eraseDups

/-- With the values of `source` in place of those of `target` under each name that `source` has.
The values of one name are put in one after the other: the first replaces what was there, the others
follow it. -/
def merge (target source : Headers) : Headers :=
  source.names.foldl (fun h n =>
    match source.getAll n with
    | [] => h
    | v :: vs => vs.foldl (fun h v => h.append n v) (h.insert n v)) target

def sorted (h : Headers) : List (FieldName × FieldValue) :=
  h.entries.mergeSort fun a b => a.1.text ≤ b.1.text

@[simp]
theorem getAll_empty (n : FieldName) : empty.getAll n = [] := rfl

@[simp]
theorem getAll_append (h : Headers) (n m : FieldName) (v : FieldValue) :
    (h.append n v).getAll m = h.getAll m ++ if n = m then [v] else [] := by
  by_cases hn : n = m <;> simp [getAll, append, hn]

@[simp]
theorem getAll_erase (h : Headers) (n m : FieldName) :
    (h.erase n).getAll m = if n = m then [] else h.getAll m := by
  by_cases hn : n = m
  · subst hn
    simp [getAll, erase, List.filter_filter]
  · simp only [getAll, erase, List.filter_filter, hn, if_false]
    congr 1
    apply List.filter_congr
    rintro ⟨k, v⟩ _
    by_cases hk : k = m
    · subst hk
      simp [Ne.symm hn]
    · simp [hk]

@[simp]
theorem getAll_insert (h : Headers) (n m : FieldName) (v : FieldValue) :
    (h.insert n v).getAll m = if n = m then [v] else h.getAll m := by
  by_cases hn : n = m <;> simp [insert, hn]

end Headers

end HttpDispatch
