/-!
# Bytes and UTF-8 text

What travels on a connection is a list of bytes; names, paths and messages are text. This module
holds the two directions between them: `encode`, the strict reading `decode?`, which refuses
anything that is not the encoding of some text, and the forgiving `decodeLossy`, which puts a
replacement character wherever a sequence breaks off.
-/

namespace HttpDispatch

abbrev Bytes := List UInt8

namespace Text

def encode (s : String) : Bytes := s.toList.flatMap String.utf8EncodeChar

/-- The text whose encoding is `b`; `none` if there is none. -/
def decode? (b : Bytes) : Option String := String.fromUTF8? b.toByteArray

theorem encode_nil : encode "" = [] := by simp [encode]

theorem encode_ofList_append (cs ds : List Char) :
    encode (String.ofList (cs ++ ds)) = encode (String.ofList cs) ++ encode (String.ofList ds) := by
  simp [encode]

theorem toByteArray_encode (s : String) : (encode s).toByteArray = s.toByteArray := by
  conv => rhs; rw [← String.ofList_toList (s := s)]
  rw [String.toByteArray_ofList]
  rfl

theorem decode?_encode (s : String) : decode? (encode s) = some s := by
  have h : (encode s).toByteArray.IsValidUTF8 := by
    rw [toByteArray_encode]; exact s.isValidUTF8
  simp only [decode?, String.fromUTF8?, h, dif_pos]
  exact congrArg some (String.toByteArray_inj.1 (toByteArray_encode s))

/-- One step of reading bytes that need not be valid: a character and the number of bytes it
takes, or the number of bytes of a sequence that cannot be completed. -/
inductive Step where
  | char (c : Char) (width : Nat)
  | broken (width : Nat)

def Step.width : Step → Nat
  | .char _ w => w
  | .broken w => w

def isContinuation (b : UInt8) : Bool := 0x80 ≤ b && b ≤ 0xBF

/-- Whether `second` may follow the lead byte `lead` of a sequence of three or four bytes: the
ranges leave out overlong forms, surrogates and numbers above the last code point. -/
def isSecond (lead second : UInt8) : Bool :=
  if lead = 0xE0 then 0xA0 ≤ second && second ≤ 0xBF
  else if lead = 0xED then 0x80 ≤ second && second ≤ 0x9F
  else if lead = 0xF0 then 0x90 ≤ second && second ≤ 0xBF
  else if lead = 0xF4 then 0x80 ≤ second && second ≤ 0x8F
  else isContinuation second

/-- The character whose payload bits are those of `lead` below `mask` followed by six bits from
each continuation byte. -/
def assemble (lead mask : UInt8) (rest : Bytes) : Char :=
  Char.ofNat (rest.foldl (fun n b => n * 64 + (b &&& 0x3F).toNat) (lead &&& mask).toNat)

/-- The first step of reading `b :: rest`. A sequence that breaks off is as long as its longest
prefix that some character starts with. -/
def step (b : UInt8) (rest : Bytes) : Step :=
  if b < 0x80 then .char (Char.ofNat b.toNat) 1
  else if 0xC2 ≤ b && b ≤ 0xDF then
    match rest with
    | b₁ :: _ => if isContinuation b₁ then .char (assemble b 0x1F [b₁]) 2 else .broken 1
    | [] => .broken 1
  else if 0xE0 ≤ b && b ≤ 0xEF then
    match rest with
    | b₁ :: b₂ :: _ =>
      if !isSecond b b₁ then .broken 1
      else if isContinuation b₂ then .char (assemble b 0x0F [b₁, b₂]) 3 else .broken 2
    | [b₁] => if isSecond b b₁ then .broken 2 else .broken 1
    | [] => .broken 1
  else if 0xF0 ≤ b && b ≤ 0xF4 then
    match rest with
    | b₁ :: b₂ :: b₃ :: _ =>
      if !isSecond b b₁ then .broken 1
      else if !isContinuation b₂ then .broken 2
      else if isContinuation b₃ then .char (assemble b 0x07 [b₁, b₂, b₃]) 4 else .broken 3
    | [b₁, b₂] =>
      if !isSecond b b₁ then .broken 1 else if isContinuation b₂ then .broken 3 else .broken 2
    | [b₁] => if isSecond b b₁ then .broken 2 else .broken 1
    | [] => .broken 1
  else .broken 1

/-- The characters of `b`, with one replacement character for each sequence that breaks off. -/
def lossyChars : Bytes → List Char
  | [] => []
  | b :: rest =>
    match step b rest with
    | .char c w => c :: lossyChars (rest.drop (w - 1))
    | .broken w => '\uFFFD' :: lossyChars (rest.drop (w - 1))
termination_by b => b.length
decreasing_by all_goals (simp only [List.length_drop, List.length_cons]; omega)

def decodeLossy (b : Bytes) : String := String.ofList (lossyChars b)

/-- The number of bytes before the first sequence that breaks off, or all of them. -/
def validLength : Bytes → Nat
  | [] => 0
  | b :: rest =>
    match step b rest with
    | .char _ w => w + validLength (rest.drop (w - 1))
    | .broken _ => 0
termination_by b => b.length
decreasing_by all_goals (simp only [List.length_drop, List.length_cons]; omega)

end Text

end HttpDispatch
