import HttpDispatch.Http.Field

/-!
# Request identifiers

Every request has an identifier of 128 bits, written with 26 digits of base 32: the numerals and the
capitals without `I`, `L`, `O` and `U`. A client may send one in the field `x-request-id`, in either
case of letters; a request without a readable one gets a fresh identifier, which the caller
supplies. 26 digits hold 130 bits, and the two highest are dropped on reading.
-/

namespace HttpDispatch

structure RequestId where
  value : BitVec 128
deriving DecidableEq, Repr

namespace RequestId

inductive ReadError where
  | length
  | character
deriving DecidableEq, Repr

def ReadError.message : ReadError → String
  | .length => "invalid length"
  | .character => "invalid character"

def alphabet : List Char := "0123456789ABCDEFGHJKMNPQRSTVWXYZ".toList

def digitChar (d : Nat) : Char := alphabet.getD d '0'

def digitValue? (c : Char) : Option Nat :=
  let i := alphabet.findIdx (· = c.toUpper)
  if i < alphabet.length then some i else none

def readDigits? (acc : Nat) : List Char → Option Nat
  | [] => some acc
  | c :: cs => (digitValue? c).bind fun d => readDigits? (acc * 32 + d) cs

def ofString (s : String) : Except ReadError RequestId :=
  if s.utf8ByteSize ≠ 26 then .error .length
  else match readDigits? 0 s.toList with
    | none => .error .character
    | some n => .ok ⟨BitVec.ofNat 128 n⟩

def writeDigits (n : Nat) : Nat → List Char
  | 0 => []
  | count + 1 => writeDigits (n / 32) count ++ [digitChar (n % 32)]

def text (id : RequestId) : String := String.ofList (writeDigits id.value.toNat 26)

instance : ToString RequestId := ⟨text⟩

def fieldValue (id : RequestId) : FieldValue := FieldValue.ofString id.text

/-- The identifier that the client sent: the first value of the field, if it is readable. -/
def inbound? (h : Headers) : Option RequestId :=
  match (h.get? .requestId).bind FieldValue.text? with
  | none => none
  | some s => (ofString (Text.trim s)).toOption

end RequestId

end HttpDispatch
